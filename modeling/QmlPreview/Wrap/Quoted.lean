import QmlPreview.Text

/-!
String literals: a value between double quotes, with backslashes, quotes and newlines escaped.
-/

namespace QmlPreview

/-- What stands for a character inside a double-quoted literal. -/
def escaped (c : Char) : Text :=
  if c = '\\' then ['\\', '\\']
  else if c = '"' then ['\\', '"']
  else if c = '\n' then ['\\', 'n']
  else [c]

def quoted (value : Text) : Text := '"' :: value.flatMap escaped ++ ['"']

end QmlPreview
