import CppServerStudio.Http.Request

/-!
# Responses

## Main definitions

* `HttpResponse`, `HttpResponse.message`: a response, and the bytes of it
-/

namespace CppServerStudio

inductive HttpStatusCode
  | kUnkonwn | k100Continue | k200K | k400BadRequest | k403Forbidden | k404NotFound
  | k500internalServerError
  deriving DecidableEq, Repr

def HttpStatusCode.code : HttpStatusCode → ℕ
  | kUnkonwn => 1
  | k100Continue => 100
  | k200K => 200
  | k400BadRequest => 400
  | k403Forbidden => 403
  | k404NotFound => 404
  | k500internalServerError => 500

structure HttpResponse where
  headers : StringMap := ∅
  statusCode : HttpStatusCode := .kUnkonwn
  statusMessage : Bytes := []
  body : Bytes := []
  closeConnection : Bool

namespace HttpResponse

/-- One header line. -/
def headerLine (header : Bytes × Bytes) : Bytes :=
  header.1 ++ ofString ": " ++ header.2 ++ ofString "\r\n"

/-- The bytes of a response. Only a response that keeps the connection open has a
`Content-Length`. -/
def message (r : HttpResponse) : Bytes :=
  ofString "HTTP/1.1 " ++ decimal r.statusCode.code ++ ofString " " ++ r.statusMessage ++
    ofString "\r\n" ++
  (if r.closeConnection then ofString "Connection: close\r\n"
    else ofString "Content-Length: " ++ decimal r.body.length ++ ofString "\r\n" ++
      ofString "Connection: Keep-Alive\r\n") ++
  r.headers.toList.flatMap headerLine ++ ofString "\r\n" ++ r.body

theorem message_ne_nil (r : HttpResponse) : r.message ≠ [] := by
  have hne : ofString "HTTP/1.1 " ≠ [] := by decide
  simp [message, hne]

end HttpResponse

end CppServerStudio
