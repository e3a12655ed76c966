import Acord.Dict

/-! The interfaces of the daemon and of its asset manager, and what both use of the frame and schema
libraries. -/

namespace Acord
open Ac

/-- `Frame_stateChange` and `Frame_error` of the frame library. -/
structure FrameLib where
  stateChange : Str → Ac.Frame
  error : Str → Ac.Frame

/-- And `Struct_fromDict` of the schema library, for the parameters of each operation. -/
structure SchemaLib extends FrameLib where
  urls : Dict → Except Exn (List Str)
  provider : Dict → Except Exn Str

namespace Schema

def id : Str := lit "acord"
def opMakeAssetsAvailable : Str := lit "make_assets_available"
def opLoadProvider : Str := lit "load_provider"

end Schema

namespace Amgr

def interfaceId : Str := lit "$asset-mgr"
def stateId : Str := lit "asset-mgr"
def opMakeAssetsAvailable : Str := lit "make-assets-available"

end Amgr

end Acord
