import MogileFs.Common.Apr

/-!
# The URL codec of `src/tracker.c` and decimal numbers

`mfs_tracker_url_encode`, `mfs_tracker_url_decode` (lines 218–267) and the
decimal text that `apr_psprintf("%d")` and `apr_ltoa` produce. `isalnum`,
`isdigit` and `tolower` are those of the C locale; `char` arithmetic is kept
modulo 256, which is what the stores into `char` keep of it.
-/

namespace MogileFs

/-- A character constant. -/
def ch (c : Char) : Byte := c.toNat.toUInt8

def isdigit (c : Byte) : Bool := ch '0' ≤ c && c ≤ ch '9'

def isupper (c : Byte) : Bool := ch 'A' ≤ c && c ≤ ch 'Z'

def isalnum (c : Byte) : Bool := isdigit c || isupper c || (ch 'a' ≤ c && c ≤ ch 'z')

def tolower (c : Byte) : Byte := if isupper c then c + 32 else c

/-- `from_hex` (lines 219–221). -/
def fromHex (c : Byte) : Byte := if isdigit c then c - ch '0' else tolower c - ch 'a' + 10

/-- `to_hex` (lines 224–227): `hex[code & 15]`. -/
def toHex (code : Byte) : Byte := (str "0123456789abcdef").getD (code &&& 15).toNat 0

/-- `mfs_tracker_url_encode` (lines 229–248) on a C string; `*length` is the
    length of the result. -/
def mfsTrackerUrlEncode : Bytes → Bytes
  | [] => []
  | c :: pstr =>
    if c = 0 then []
    else if isalnum c || c = ch '-' || c = ch '_' || c = ch '.' || c = ch '~' then
      c :: mfsTrackerUrlEncode pstr
    else if c = ch ' ' then ch '+' :: mfsTrackerUrlEncode pstr
    else ch '%' :: toHex (c >>> 4) :: toHex (c &&& 15) :: mfsTrackerUrlEncode pstr

/-- `mfs_tracker_url_decode` (lines 250–267) on a C string. A `%` without two
    characters behind it is dropped. -/
def mfsTrackerUrlDecode : Bytes → Bytes
  | [] => []
  | c :: pstr =>
    if c = 0 then []
    else if c = ch '%' then
      match pstr with
      | d :: e :: pstr' =>
        if d ≠ 0 && e ≠ 0 then (fromHex d <<< 4 ||| fromHex e) :: mfsTrackerUrlDecode pstr'
        else mfsTrackerUrlDecode (d :: e :: pstr')
      | pstr => mfsTrackerUrlDecode pstr
    else if c = ch '+' then ch ' ' :: mfsTrackerUrlDecode pstr
    else c :: mfsTrackerUrlDecode pstr

/-- `%d` of a non-negative number. -/
def decimalNat (n : ℕ) : Bytes := (Nat.toDigits 10 n).map ch

/-- `%d`, and `apr_ltoa`. -/
def decimal (n : ℤ) : Bytes := if n < 0 then ch '-' :: decimalNat n.natAbs else decimalNat n.toNat

end MogileFs
