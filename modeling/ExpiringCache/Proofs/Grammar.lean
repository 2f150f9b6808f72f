/-! The documents of the data format as texts. A value is null, a boolean, an integer that 64
bits hold, a string, a list or an object, whose members stand in order and may repeat a key.
`Spells` says which texts spell it: integers are written in one way, but every character of a
string has several spellings, and blanks may stand between the parts. Nothing here refers to
a reader; a document is a value with blanks around it (`Value.IsWrittenAs`). -/

namespace ExpiringCache.Json

inductive Value where
  | null
  | boolean (b : Bool)
  | integer (n : Int)
  | text (s : String)
  | list (vs : List Value)
  | object (ms : List (String × Value))

/-- White space. -/
def Blanks (b : List Char) : Prop := ∀ c ∈ b, c = ' ' ∨ c = '\t' ∨ c = '\n' ∨ c = '\r'

/-! ### Strings -/

/-- The letters that escape a character, each with what it stands for. -/
def letterEscapes : List (Char × Char) :=
  [('"', '"'), ('\\', '\\'), ('/', '/'), ('b', '\x08'), ('f', '\x0c'), ('n', '\n'), ('r', '\r'),
    ('t', '\t')]

/-- The hexadecimal digits of either case. -/
def IsHexDigit (c : Char) (d : Nat) : Prop :=
  "0123456789abcdef".toList[d]? = some c ∨ "0123456789ABCDEF".toList[d]? = some c

instance (c : Char) (d : Nat) : Decidable (IsHexDigit c d) := inferInstanceAs (Decidable (_ ∨ _))

/-- Four hexadecimal digits spell a UTF-16 code unit. -/
inductive SpellsUnit : Nat → List Char → Prop
  | digits {a b c d : Nat} {w x y z : Char} (ha : IsHexDigit w a) (hb : IsHexDigit x b)
      (hc : IsHexDigit y c) (hd : IsHexDigit z d) :
      SpellsUnit (0x1000 * a + 0x100 * b + 0x10 * c + d) [w, x, y, z]

/-- A character of a string stands for itself, unless it is the quote, the backslash or a
control; or it is escaped by a letter, by its code unit, or by its two code units. -/
inductive SpellsChar : Char → List Char → Prop
  | plain {c : Char} (hquote : c ≠ '"') (hslash : c ≠ '\\') (hcontrol : 32 ≤ c.toNat) :
      SpellsChar c [c]
  | letter {e c : Char} (h : (e, c) ∈ letterEscapes) : SpellsChar c ['\\', e]
  | unit {c : Char} {t : List Char} (h : SpellsUnit c.toNat t) : SpellsChar c ('\\' :: 'u' :: t)
  | pair {c : Char} {u v : Nat} {s t : List Char} (hu : 0xd800 ≤ u ∧ u < 0xdc00)
      (hv : 0xdc00 ≤ v ∧ v < 0xe000)
      (hc : c.toNat = 0x10000 + (u - 0xd800) * 0x400 + (v - 0xdc00)) (hs : SpellsUnit u s)
      (ht : SpellsUnit v t) : SpellsChar c ('\\' :: 'u' :: s ++ '\\' :: 'u' :: t)

/-- The characters of a string one after the other, without the quotes. -/
inductive SpellsText : List Char → List Char → Prop
  | nil : SpellsText [] []
  | cons {c : Char} {cs t u : List Char} (hc : SpellsChar c t) (hcs : SpellsText cs u) :
      SpellsText (c :: cs) (t ++ u)

/-! ### Values -/

/-- What a piece of a document may be: a value by itself, a value with blanks around it, what
stands between the brackets of a list, a member of an object, what stands between its
brackets. -/
inductive Phrase where
  | value (v : Value)
  | element (v : Value)
  | elements (vs : List Value)
  | member (m : String × Value)
  | members (ms : List (String × Value))

inductive Spells : Phrase → List Char → Prop
  | null : Spells (.value .null) "null".toList
  | boolean (b : Bool) : Spells (.value (.boolean b)) (if b then "true" else "false").toList
  | integer {n : Int} (hlow : -9223372036854775808 ≤ n) (hhigh : n < 18446744073709551616) :
      Spells (.value (.integer n)) (toString n).toList
  | text {s : String} {t : List Char} (h : SpellsText s.toList t) :
      Spells (.value (.text s)) ('"' :: t ++ ['"'])
  | emptyList {a : List Char} (ha : Blanks a) : Spells (.value (.list [])) ('[' :: a ++ [']'])
  | list {vs : List Value} {t : List Char} (h : Spells (.elements vs) t) :
      Spells (.value (.list vs)) ('[' :: t ++ [']'])
  | emptyObject {a : List Char} (ha : Blanks a) :
      Spells (.value (.object [])) ('\x7b' :: a ++ ['\x7d'])
  | object {ms : List (String × Value)} {t : List Char} (h : Spells (.members ms) t) :
      Spells (.value (.object ms)) ('\x7b' :: t ++ ['\x7d'])
  | element {v : Value} {a t b : List Char} (ha : Blanks a) (h : Spells (.value v) t)
      (hb : Blanks b) : Spells (.element v) (a ++ t ++ b)
  | lastElement {v : Value} {t : List Char} (h : Spells (.element v) t) :
      Spells (.elements [v]) t
  | elements {v w : Value} {vs : List Value} {t u : List Char} (h : Spells (.element v) t)
      (hs : Spells (.elements (w :: vs)) u) : Spells (.elements (v :: w :: vs)) (t ++ ',' :: u)
  | member {key : String} {v : Value} {a k b t : List Char} (ha : Blanks a)
      (hk : SpellsText key.toList k) (hb : Blanks b) (h : Spells (.element v) t) :
      Spells (.member (key, v)) (a ++ '"' :: k ++ '"' :: b ++ ':' :: t)
  | lastMember {m : String × Value} {t : List Char} (h : Spells (.member m) t) :
      Spells (.members [m]) t
  | members {m n : String × Value} {ms : List (String × Value)} {t u : List Char}
      (h : Spells (.member m) t) (hs : Spells (.members (n :: ms)) u) :
      Spells (.members (m :: n :: ms)) (t ++ ',' :: u)

/-- The text is a document that holds the value. -/
def Value.IsWrittenAs (v : Value) (text : String) : Prop := Spells (.element v) text.toList

end ExpiringCache.Json
