/-! The library's version. -/
namespace ButtonPad

def version : String := "0.1.0"

end ButtonPad
