import Shaka.Core.Vocabulary
import Shaka.Library.Searches

namespace Shaka.Core
open Patterns Pattern

-- How a character reads as a letter when case is ignored: the two letters outside ASCII that
-- fold to one inside are the long s and the Kelvin sign.
def longS : Char := Char.ofNat 0x17F

def kelvin : Char := Char.ofNat 0x212A

def folds (letter c : Char) : Bool :=
  c == letter || c == letter.toUpper || (letter == 's' && c == longS) || (letter == 'k' && c == kelvin)

def literal (text : String) : Pattern := word folds text.toList

-- The classes of the pattern: `[A-Za-z0-9._~+/=-]`, `[:=]`, `["']`, `[_-]` and `[^\s,;}\]]`.
def isTokenChar (c : Char) : Bool :=
  c.isAlphanum || c == longS || c == kelvin || ['.','_','~','+','/','=','-'].contains c

def isSeparator (c : Char) : Bool := c == ':' || c == '='

def apostrophe : Char := Char.ofNat 39

def isQuote (c : Char) : Bool := c == '"' || c == apostrophe

def isDash (c : Char) : Bool := c == '_' || c == '-'

def isBareChar (c : Char) : Bool := !(isWhiteSpace c || [',',';',Char.ofNat 0x7D,']'].contains c)

def bearerToken : Pattern := sequence (literal "bearer") [atLeastOne isWhiteSpace,atLeastOne isTokenChar]

def headerKey : Pattern :=
  sequence (choice (literal "authorization") [literal "proxy-authorization"]) [many isWhiteSpace]

def header (isWord : Char → Bool) : Pattern :=
  sequence (boundary isWord) [headerKey,one isSeparator,many isWhiteSpace,bearerToken]

def bearer (isWord : Char → Bool) : Pattern := sequence (boundary isWord) [bearerToken]

def dashed (first second : String) : Pattern := sequence (literal first) [opt (one isDash),literal second]

def secretName : Pattern :=
  choice (dashed "api" "key") [dashed "access" "token",literal "secret",literal "password",
    literal "authorization",literal "cookie",literal "set-cookie",dashed "private" "key",literal "token"]

def pairKey : Pattern := sequence (opt (one isQuote)) [secretName,opt (one isQuote),many isWhiteSpace]

def quoted (mark : Char) : Pattern := sequence (one (· == mark)) [many (· != mark),one (· == mark)]

def pairValue : Pattern := choice (quoted '"') [quoted apostrophe,atLeastOne isBareChar]

def pair : Pattern := sequence pairKey [one isSeparator,many isWhiteSpace,pairValue]

-- Which characters count as parts of a word is for the Unicode tables to say; of ASCII they say this.
def isAsciiWord (c : Char) : Bool := c.isAlphanum || c == '_'

def sensitiveTextPattern (isWord : Char → Bool) : Pattern := choice (header isWord) [bearer isWord,pair]

def isBearer (value : List Char) : Bool := (value.take 6).map Char.toLower == "bearer".toList

def trimQuotes (text : List Char) : List Char := ((text.dropWhile isQuote).reverse.dropWhile isQuote).reverse

def matchedKey (value : List Char) : List Char := trimQuotes (value.takeWhile fun c => !isSeparator c)

def redactMatch (value : List Char) : List Char :=
  if isBearer value then "Bearer [REDACTED]".toList else matchedKey value ++ "=[REDACTED]".toList

def redactSensitive (isWord : Char → Bool) (input : String) : String :=
  String.ofList (replaceAll (sensitiveTextPattern isWord) redactMatch none input.toList)

end Shaka.Core
