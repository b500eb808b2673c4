import QmlPreview.Text.DecimalDigit
import QmlPreview.Token

/-!
The names of side files: `Live<counter>_<token>.qml`.

A side file is a disposable copy that stands next to its source. Its name carries the number of its
generation and a random token, and a file that has such a name may be deleted.
-/

namespace QmlPreview

def sideFileName (counter : UInt64) (token : Token) : Text :=
  "Live".toList ++ Text.ofNat counter.toNat ++ '_' :: token.short ++ ".qml".toList

/-- A text made of eight hexadecimal digits and the suffix of documents. -/
def isTokenSuffix (t : Text) : Bool :=
  (t.take 8).length == 8 && (t.take 8).all isLowerHex && t.drop 8 == ".qml".toList

/-- The name is that of a side file. The counter may be written in the digits of any script. -/
def isSideFileName (name : Text) : Bool :=
  match Text.dropLead? "Live".toList name with
  | none => false
  | some rest =>
    !(rest.takeWhile Text.isDecimalDigit).isEmpty &&
      match rest.dropWhile Text.isDecimalDigit with
      | '_' :: suffix => isTokenSuffix suffix
      | _ => false

end QmlPreview
