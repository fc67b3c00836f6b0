import ModelHub.Text.Property
import ModelHub.Text.Split
import ModelHub.Url.Percent
import ModelHub.Url.Punycode

/-!
Host names: folded to one spelling, then written with letters, digits and hyphens label by label.

The tables cover the European scripts, the widths of the East Asian ones and the usual marks; all other
characters stand for themselves if they can be printed.
-/

namespace ModelHub.Url.DomainName

/-- First and last code point of some capital letters, and the distance of the small ones. -/
def shifted : List (Nat × Nat × Nat) :=
  [(0x41, 0x5A, 32), (0xC0, 0xD6, 32), (0xD8, 0xDE, 32), (0x388, 0x38A, 37), (0x391, 0x3A1, 32),
    (0x3A3, 0x3AB, 32), (0x400, 0x40F, 80), (0x410, 0x42F, 32), (0x531, 0x556, 48)]

/-- Ranges in which every capital letter, the first character among them, is followed by its small
letter. -/
def alternating : List (Nat × Nat) :=
  [(0x100, 0x12F), (0x132, 0x137), (0x139, 0x148), (0x14A, 0x177), (0x179, 0x17E), (0x1CD, 0x1DC),
    (0x1DE, 0x1EF), (0x1F8, 0x21F), (0x222, 0x233), (0x370, 0x373), (0x460, 0x481),
    (0x48A, 0x4BF), (0x4C1, 0x4CE), (0x4D0, 0x52F), (0x1E00, 0x1E95), (0x1EA0, 0x1EFF)]

def replaced : List (Char × String) :=
  [('ª', "a"), ('²', "2"), ('³', "3"), ('µ', "μ"), ('¹', "1"), ('º', "o"), ('¼', "1⁄4"),
    ('½', "1⁄2"), ('¾', "3⁄4"), ('İ', "i\u0307"), ('Ĳ', "ij"), ('ĳ', "ij"), ('Ŀ', "l·"), ('ŀ', "l·"),
    ('ŉ', "ʼn"), ('Ÿ', "ÿ"), ('ſ', "s"), ('Ά', "ά"), ('Ό', "ό"), ('Ύ', "ύ"), ('Ώ', "ώ"),
    ('Ӏ', "ӏ"), ('ẞ', "ß"), ('․', "."), ('‥', ".."), ('…', "..."), ('。', "."), ('｡', "."),
    ('⁰', "0"), ('⁴', "4"), ('⁵', "5"), ('⁶', "6"), ('⁷', "7"), ('⁸', "8"), ('⁹', "9"),
    ('\u2126', "ω"), ('\u212a', "k"), ('\u212b', "å"), ('™', "tm"), ('℡', "tel"), ('№', "no"),
    ('℃', "°c"), ('ﬀ', "ff"), ('ﬁ', "fi"), ('ﬂ', "fl"), ('ﬃ', "ffi"), ('ﬄ', "ffl"), ('ﬅ', "st"),
    ('ﬆ', "st")]

def isWithin (n : Nat) (range : Nat × Nat) : Bool := range.1 ≤ n && n ≤ range.2

/-- Soft hyphens, joiners of words and selectors of variants leave no trace. -/
def isIgnored (c : Char) : Bool :=
  [(0xAD, 0xAD), (0x34F, 0x34F), (0x180B, 0x180D), (0x200B, 0x200B), (0x2060, 0x2060),
    (0x2064, 0x2064), (0xFE00, 0xFE0F), (0xFEFF, 0xFEFF)].any (isWithin c.toNat)

def isBlankLike (c : Char) : Bool :=
  [(0xA0, 0xA0), (0xA8, 0xA8), (0xAF, 0xAF), (0xB4, 0xB4), (0xB8, 0xB8), (0x2D8, 0x2DD),
    (0x2000, 0x200A), (0x202F, 0x202F), (0x205F, 0x205F), (0x3000, 0x3000)].any (isWithin c.toNat)

def foldLetter (n : Nat) : Nat :=
  match shifted.find? fun range => isWithin n (range.1, range.2.1) with
  | some range => n + range.2.2
  | none =>
    match alternating.find? (isWithin n) with
    | some range => n + (n - range.1 + 1) % 2
    | none => n

def narrow (n : Nat) : Nat := if 0xFF01 ≤ n && n ≤ 0xFF5E then n - 0xFEE0 else n

def foldChar (c : Char) : Option (List Char) :=
  if isIgnored c then some []
  else if isBlankLike c then none
  else match replaced.lookup c with
    | some text => some text.toList
    | none =>
      if !Punycode.isBasic c && Text.isUnprintable c then none
      else some [Char.ofNat (foldLetter (narrow c.toNat))]

/-- Marks, the letters they can join, and the joint characters. -/
def composed : List (Char × String × String) :=
  [('\u0300', "aeiounwy", "àèìòùǹẁỳ"),
    ('\u0301', "aeiouyclnrszgkmpw", "áéíóúýćĺńŕśźǵḱḿṕẃ"),
    ('\u0302', "aeioucghjswyz", "âêîôûĉĝĥĵŝŵŷẑ"),
    ('\u0303', "ainoueyv", "ãĩñõũẽỹṽ"),
    ('\u0304', "aeiougy", "āēīōūḡȳ"),
    ('\u0306', "aegiou", "ăĕğĭŏŭ"),
    ('\u0307', "cegzaobdfhmnprstwxy", "ċėġżȧȯḃḋḟḣṁṅṗṙṡṫẇẋẏ"),
    ('\u0308', "aeiouyhwxt", "äëïöüÿḧẅẍẗ"),
    ('\u030a', "auwy", "åůẘẙ"),
    ('\u030b', "ou", "őű"),
    ('\u030c', "acdeghijklnorstuz", "ǎčďěǧȟǐǰǩľňǒřšťǔž"),
    ('\u0327', "cdeghklnrst", "çḑȩģḩķļņŗşţ"),
    ('\u0328', "aeiou", "ąęįǫų")]

def composePair? (letter mark : Char) : Option Char := do
  let (letters, joint) ← composed.lookup mark
  (letters.toList.zip joint.toList).lookup letter

def compose (text : List Char) : List Char :=
  text.foldr (fun c rest => match rest with
    | mark :: behind => match composePair? c mark with
      | some joint => joint :: behind
      | none => c :: rest
    | [] => [c]) []

/-- Characters that end a host, or have a meaning of their own in an address. -/
def isForbidden (c : Char) : Bool :=
  c.toNat ≤ 32 || c.toNat = 127 || "%#/:<>?@[\\]^`\x7b|\x7d".contains c

def isMark (c : Char) : Bool := isWithin c.toNat (0x300, 0x36F)

def isProper (label : List Char) : Bool :=
  !label.all Punycode.isBasic && !label.head?.any isMark &&
    compose label == label && label.all fun c => foldChar c == some [c]

def codeLead : List Char := "xn--".toList

/-- A label that is already coded must be the code of a proper one. -/
def encodeLabel? (label : List Char) : Option (List Char) :=
  match Text.dropLead? codeLead label with
  | some code => if (Punycode.decode code).any isProper then some label else none
  | none =>
    if label.all Punycode.isBasic then some label
    else if label.head?.any isMark then none
    else some (codeLead ++ Punycode.encode label)

def ofText? (text : List Char) : Option String := do
  let name := compose (← text.mapM foldChar).flatten
  if name.any isForbidden then none
  else some (Text.join "." ((← (Text.segments '.' name).mapM encodeLabel?).map String.ofList))

end ModelHub.Url.DomainName
