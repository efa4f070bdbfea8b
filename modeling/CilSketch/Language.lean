/-!
The surface language that declarations are projected to.
-/

set_option autoImplicit false

namespace CilSketch

structure Language where
  name : String
  fileExtension : String
  projectExtension : String
  deriving DecidableEq, Repr

def surfaceLanguage : Language where
  name := "Backlang"
  fileExtension := ".back"
  projectExtension := ".backproj"

end CilSketch
