import QueryPlan.Text.Columns
import QueryPlan.Text.Emoji

/-!
# How many columns a text takes

A text takes the columns of its characters together, save where characters merge into one sign: a
picture and its skin tone, pictures that are joined, flags, letters that form a ligature, and
characters whose form is chosen by a selector after them. So a text is measured from its end: what a
character adds depends on what stands to its right.
-/

namespace QueryPlan.Text

/-- Letters that form a ligature with letters before them. -/
inductive Ligature
  | hebrewLamed
  | bugineseYa
  | bugineseVowelYa
  | tifinaghConsonant
  | tifinaghJoined
  | lisuTone
  | orkhonI
  | khmerLetter
deriving DecidableEq, Repr

/-- What a picture is joined to by what stands before it. -/
inductive Joined
  | picture
  | keycap
  /-- A flag letter, the last of a flag. -/
  | flagEnd
  | evenFlagLetters
  | oddFlagLetters
  /-- The end of the name of a region, with so many letters and digits of it. -/
  | region (letters digits : Nat)
deriving DecidableEq, Repr

/-- What stands to the right of a character, as far as it changes what the character adds. -/
inductive Follow
  | other
  | arabicAlef
  /-- A letter, perhaps with a joiner before it. -/
  | ligature (letter : Ligature) (joined : Bool)
  | picture
  | tone
  | flagLetter
  | flagLetters
  /-- A joiner and a picture, and what stands before the joiner. -/
  | joined (j : Joined)
  | kiratE
  | kiratAi
deriving DecidableEq, Repr

/-- A selector chooses a form of the character before it. -/
inductive Selector
  | text
  | picture
  /-- The full form of a quotation mark. -/
  | full
deriving DecidableEq, Repr

/-- All that stands to the right: the selectors that may still choose, and what follows them. -/
structure RightSide where
  selectors : List Selector
  next : Follow

def between (first last : Nat) (c : Char) : Bool := first ≤ c.toNat && c.toNat ≤ last

def joiner : Char := Char.ofNat 0x200D

def selector? (c : Char) : Option Selector :=
  match c.toNat with
  | 0xFE01 => some .full
  | 0xFE0E => some .text
  | 0xFE0F => some .picture
  | _ => none

/-- Ignorable marks, which may stand inside a ligature. -/
def isIgnorableMark (c : Char) : Bool :=
  c.toNat = 0x34F || between 0x17B4 0x17B5 c || between 0x180B 0x180D c || c.toNat = 0x180F ||
    between 0xFE00 0xFE0F c || between 0xE0100 0xE01EF c

def isQuotationMark (c : Char) : Bool := between 0x2018 0x2019 c || between 0x201C 0x201D c

def arabicAlefs : CharSet := ⟨[
  (0x622, 0x623), (0x625, 0x625), (0x627, 0x627), (0x671, 0x673), (0x675, 0x675), (0x773, 0x774),
  (0x870, 0x882)]⟩

def arabicLams : CharSet := ⟨[
  (0x644, 0x644), (0x6B5, 0x6B8), (0x76A, 0x76A), (0x8A6, 0x8A6), (0x8C7, 0x8C7)]⟩

/-- The letters that are written below the one before them. -/
def khmerLetters : CharSet := ⟨[
  (0x1780, 0x1782), (0x1784, 0x1787), (0x1789, 0x178C), (0x178E, 0x1793), (0x1795, 0x1798),
  (0x179B, 0x179D), (0x17A0, 0x17A0), (0x17A2, 0x17A2), (0x17A7, 0x17A7), (0x17AB, 0x17AC),
  (0x17AF, 0x17AF)]⟩

def isTifinaghConsonant (c : Char) : Bool := between 0x2D31 0x2D65 c || c.toNat = 0x2D6F

/-- What a character is to the one before it. -/
def Follow.ofChar (c : Char) : Follow :=
  if arabicAlefs.contains c then arabicAlef
  else if c.toNat = 0x5DC then ligature .hebrewLamed false
  else if c.toNat = 0x1A10 then ligature .bugineseYa false
  else if isTifinaghConsonant c then ligature .tifinaghConsonant false
  else if between 0xA4FC 0xA4FD c then ligature .lisuTone false
  else if c.toNat = 0x10C03 then ligature .orkhonI false
  else if khmerLetters.contains c then ligature .khmerLetter false
  else if c.toNat = 0x16D67 then kiratE
  else if c.toNat = 0x16D68 then kiratAi
  else if Emoji.isTone c then tone
  else if Emoji.isFlagLetter c then flagLetter
  else if Emoji.isPicture c then picture
  else other

/-- What a character adds before a letter with which it forms a ligature, and what the two are
together to the character before them. -/
def Ligature.merge? (letter : Ligature) (joined : Bool) (c : Char) : Option (Int × Follow) :=
  match letter, joined with
  | hebrewLamed, true => if c.toNat = 0x5D0 then some (0, .other) else none
  | bugineseYa, true => if c.toNat = 0x1A17 then some (0, .ligature bugineseVowelYa true) else none
  | bugineseVowelYa, _ => if c.toNat = 0x1A15 then some (0, .other) else none
  | tifinaghConsonant, _ =>
    if c.toNat = 0x2D7F then some (1, .ligature tifinaghJoined true)
    else if joined && isTifinaghConsonant c then some (0, .other)
    else none
  | tifinaghJoined, _ => if isTifinaghConsonant c then some (-1, .other) else none
  | lisuTone, _ => if between 0xA4F8 0xA4FB c then some (0, .other) else none
  | orkhonI, true => if c.toNat = 0x10C32 then some (0, .other) else none
  | khmerLetter, _ => if c.toNat = 0x17D2 then some (-1, .other) else none
  | _, _ => none

/-- What a character adds before a joined picture. A region is named by three to six letters, or by
three digits and letters after them, all of them tags, after a black flag. -/
def Joined.merge? (c : Char) : Joined → Option (Int × Follow)
  | picture =>
    if c.toNat = 0x20E3 then some (0, .joined keycap)
    else if Emoji.isFlagLetter c then some (1, .joined flagEnd)
    else if Emoji.isTone c then some (0, .tone)
    else if c.toNat = 0xE007F then some (0, .joined (region 0 0))
    else if Emoji.isPicture c then some (0, .picture)
    else none
  | keycap => none
  | flagEnd => if Emoji.isFlagLetter c then some (-1, .joined evenFlagLetters) else none
  | evenFlagLetters =>
    if Emoji.isFlagLetter c then some (3, .joined oddFlagLetters)
    else if c = joiner then some (0, .joined picture)
    else none
  | oddFlagLetters =>
    if Emoji.isFlagLetter c then some (-1, .joined evenFlagLetters)
    else if c = joiner then some (0, .joined picture)
    else none
  | region letters digits =>
    if between 0xE0061 0xE007A c && digits = 0 && letters < 6 then
      some (0, .joined (region (letters + 1) 0))
    else if between 0xE0030 0xE0039 c &&
        (digits = 0 && letters < 5 || 0 < digits && digits < 3) then
      some (0, .joined (region letters (digits + 1)))
    else if c.toNat = 0x1F3F4 && (digits = 3 || digits = 0 && 3 ≤ letters) then some (0, .picture)
    else none

/-- What a character adds before something it merges with, and what the two are together to the
character before them. -/
def Follow.merge? (c : Char) : Follow → Option (Int × Follow)
  | other => none
  | arabicAlef =>
    if arabicLams.contains c then some (0, other)
    else if isTransparent c then some (0, arabicAlef)
    else none
  | ligature letter isJoined =>
    if c = joiner then some (0, ligature letter true)
    else if isIgnorableMark c then some (0, ligature letter isJoined)
    else letter.merge? isJoined c
  | picture => if c = joiner then some (0, joined .picture) else none
  | tone =>
    if Emoji.takesTone c then some (0, picture)
    else if c = joiner then some (0, joined .picture)
    else none
  | flagLetter => if Emoji.isFlagLetter c then some (1, flagLetters) else none
  | flagLetters =>
    if Emoji.isFlagLetter c then some (1, flagLetters)
    else if c = joiner then some (0, joined .picture)
    else none
  | joined j => j.merge? c
  | kiratE =>
    match c.toNat with
    | 0x16D63 => some (0, other)
    | 0x16D67 => some (0, kiratAi)
    | 0x16D68 => some (1, kiratE)
    | 0x16D69 => some (0, other)
    | _ => none
  | kiratAi => if c.toNat = 0x16D63 then some (0, other) else none

/-- Letters that merge with a letter before them even if a selector stands between. -/
def Follow.isLetter : Follow → Bool
  | arabicAlef => true
  | ligature _ _ => true
  | _ => false

/-- What still counts behind a selector, if it is no letter. -/
def Follow.behind (s : Selector) : Follow → Follow
  | joined .picture => if s = .picture then joined .picture else other
  | joined .keycap => if s = .picture then joined .keycap else other
  | _ => other

/-- What still counts behind a selector that has chosen nothing. -/
def Follow.unselected : Follow → Follow
  | joined _ => other
  | next => next

namespace RightSide

/-- The end of a text, or anything that nothing before it merges with. -/
def plain : RightSide := ⟨[], .other⟩

/-- Puts a selector in front. Before a letter it stands beside the selectors there are, elsewhere it
takes their place. -/
def select (s : Selector) (right : RightSide) : RightSide :=
  if right.next.isLetter then ⟨s :: right.selectors, right.next⟩ else ⟨[s], right.next.behind s⟩

/-- Only the very next character can be shown as a picture. -/
def unpictured (right : RightSide) : RightSide :=
  if right.selectors.contains .picture then
    ⟨right.selectors.filter (· ≠ .picture), right.next.unselected⟩
  else right

end RightSide

/-- A picture that is joined to the next one shares its columns. -/
def chosenPictureColumns : Follow → Int
  | .joined _ => 0
  | _ => 2

/-- How many columns a character adds to the text on its right. -/
def addChar (c : Char) (right : RightSide) : Int × RightSide :=
  if right.selectors.contains .picture && Emoji.isSelectable c then
    (chosenPictureColumns right.next, ⟨[], .picture⟩)
  else if c.toNat ≤ 0xA0 then (1, .plain)
  else
    let right := right.unpictured
    match selector? c with
    | some s => (0, right.select s)
    | none =>
      if right.selectors.contains .text && Emoji.hasNarrowForm c then (1, .plain)
      else if right.selectors.contains .full && isQuotationMark c then (2, .plain)
      else
        match right.next.merge? c with
        | some (columns, next) => (columns, ⟨[], next⟩)
        | none => (charColumns c, ⟨[], .ofChar c⟩)

/-- The columns of characters, and what they are to a character before them. -/
def measureChars (cs : List Char) : Int × RightSide :=
  cs.foldr (fun c (columns, right) =>
    let (added, right) := addChar c right
    (columns + added, right)) (0, .plain)

/-- The number of columns a text takes. -/
def displayWidth (s : String) : Nat := (measureChars s.toList).1.toNat

end QueryPlan.Text
