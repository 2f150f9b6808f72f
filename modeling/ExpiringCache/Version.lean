/-! The version that the library answers with. -/

namespace ExpiringCache

def version : String := "0.1.0"

end ExpiringCache
