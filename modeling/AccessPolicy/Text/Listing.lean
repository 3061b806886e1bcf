import AccessPolicy.Text.Invisible

/-! # Listings of texts

A list of texts is written in brackets, each text in quotation marks. Inside the
marks a quotation mark, a backslash and everything that would not be seen is
escaped.
-/

namespace AccessPolicy.Text

/-- A character as it stands inside the quotation marks of a listing. -/
def listedChar (c : Char) : List Char :=
  if c = '"' then ['\\', '"']
  else if c = '\\' then ['\\', '\\']
  else if c = '\n' then ['\\', 'n']
  else if c = '\r' then ['\\', 'r']
  else if c = '\t' then ['\\', 't']
  else if c.toNat = 0 then ['\\', '0']
  else if isInvisible c then
    '\\' :: 'u' :: '\x7b' :: (Nat.toDigits 16 c.toNat ++ ['\x7d'])
  else [c]

def listedChars (text : String) : List Char :=
  '"' :: (text.toList.flatMap listedChar ++ ['"'])

def listing (texts : List String) : String :=
  String.ofList ('[' :: ((List.intercalate [',', ' '] (texts.map listedChars)) ++ [']']))

end AccessPolicy.Text
