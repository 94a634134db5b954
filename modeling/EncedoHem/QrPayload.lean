import EncedoHem.Ejwt
import EncedoHem.Notify

namespace EncedoHem
open Text Dialogue

end EncedoHem
