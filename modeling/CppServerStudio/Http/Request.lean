import CppServerStudio.Util.Bytes

/-!
# The parsed request

`HttpRequest` is filled by the parser through its setters and read by the servers. Parameters and
headers are `std::map`s, so a repeated key keeps its last value.

## Main definitions

* `HttpRequest` and its setters
* `HttpRequest.getHeader`, `HttpRequest.getRequestValue`: the header lookups
-/

namespace CppServerStudio

/-- `std::map<std::string, std::string>`. -/
abbrev StringMap := Std.ExtTreeMap Bytes Bytes

/-- The request a context fills while parsing. -/
@[ext] structure HttpRequest where
  method : Bytes := []
  version : Bytes := []
  requestParams : StringMap := ∅
  url : Bytes := []
  protocol : Bytes := []
  headers : StringMap := ∅
  body : Bytes := []
  deriving DecidableEq

namespace HttpRequest

def setVersion (r : HttpRequest) (ver : Bytes) : HttpRequest := { r with version := ver }

def setMethod (r : HttpRequest) (method : Bytes) : HttpRequest := { r with method := method }

def setUrl (r : HttpRequest) (url : Bytes) : HttpRequest := { r with url := url }

def setRequestParams (r : HttpRequest) (key value : Bytes) : HttpRequest :=
  { r with requestParams := r.requestParams.insert key value }

def setProtocol (r : HttpRequest) (str : Bytes) : HttpRequest := { r with protocol := str }

def addHeader (r : HttpRequest) (field value : Bytes) : HttpRequest :=
  { r with headers := r.headers.insert field value }

def setBody (r : HttpRequest) (str : Bytes) : HttpRequest := { r with body := str }

/-- The value of a header, empty when it is absent. -/
def getHeader (r : HttpRequest) (field : Bytes) : Bytes := (r.headers[field]?).getD []

/-- `GetRequestValue` looks its key up among the headers, not among the parameters. -/
def getRequestValue (r : HttpRequest) (key : Bytes) : Bytes := (r.headers[key]?).getD []

end HttpRequest

end CppServerStudio
