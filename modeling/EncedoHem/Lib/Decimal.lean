import Mathlib.Data.List.TakeWhile
import EncedoHem.Lib.Double

namespace Double
open Text

end Double
