import FacialLandmark.Detect.Frame
import FacialLandmark.Detect.Enlarge
import FacialLandmark.Detect.HandOff
import FacialLandmark.Detect.Display
import FacialLandmark.Image.Coverage
import FacialLandmark.Image.Bt601
import FacialLandmark.Image.Grey
import FacialLandmark.Dlib.PackInt
import FacialLandmark.Dlib.Accepted
import FacialLandmark.Dlib.Partial
import FacialLandmark.Predict.Encoding
import FacialLandmark.Predict.Single
import FacialLandmark.Native.LoadModel
import FacialLandmark.Native.Exceptions
import FacialLandmark.Native.SavedModel
import FacialLandmark.App.ModelFile
import FacialLandmark.App.CopyPrefix
import FacialLandmark.App.Stages
import FacialLandmark.App.Screen
