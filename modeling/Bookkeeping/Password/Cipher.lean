import Bookkeeping.Password.Circle

/-! # The cipher

A block cipher of sixteen rounds on two words of 32 bits. Its tables, eighteen round keys and four
boxes of 256 words, start as the digits of π. A key is mixed into the round keys, and then all
tables are replaced in their order by what the cipher makes of a running block, into which a salt
may be mixed before each step.
-/

namespace Bookkeeping.Cipher

/-- The tables: the round keys first and the boxes after them. -/
abbrev Tables := Array UInt32

def keyCount : Nat := 18
def tableSize : Nat := keyCount + 4 * 256

/-- The tables before any key is mixed in. -/
def initial : Tables := Circle.words tableSize

/-- The word of a box for a byte. -/
def box (t : Tables) (i : Nat) (byte : UInt32) : UInt32 := t[keyCount + 256 * i + byte.toNat]!

/-- What a round makes of a word. -/
def mix (t : Tables) (x : UInt32) : UInt32 :=
  let a := box t 0 (x >>> 24)
  let b := box t 1 ((x >>> 16) &&& 0xff)
  let c := box t 2 ((x >>> 8) &&& 0xff)
  let d := box t 3 (x &&& 0xff)
  ((a + b) ^^^ c) + d

/-- Rounds in pairs, from a given one on. -/
def rounds (t : Tables) : Nat → Nat → UInt32 → UInt32 → UInt32 × UInt32
  | 0, i, l, r => (r ^^^ t[i + 1]!, l ^^^ t[i]!)
  | n + 1, i, l, r =>
    let l := l ^^^ t[i]!
    let r := r ^^^ mix t l
    let r := r ^^^ t[i + 1]!
    let l := l ^^^ mix t r
    rounds t n (i + 2) l r

/-- The cipher on one block. -/
def encrypt (t : Tables) (l r : UInt32) : UInt32 × UInt32 := rounds t 8 0 l r

/-- A word of a key, which is repeated as often as needed. -/
def word (key : Array UInt32) (i : Nat) : UInt32 := key[i % key.size]!

/-- The tables with a key mixed into the round keys. -/
def mixKey (key : Array UInt32) : Nat → Nat → Tables → Tables
  | 0, _, t => t
  | n + 1, i, t => mixKey key n (i + 1) (t.setIfInBounds i (t[i]! ^^^ word key i))

/-- The tables replaced pair by pair by a running block, into which the salt is mixed. -/
def refill (salt : Array UInt32) : Nat → Nat → UInt32 → UInt32 → Tables → Tables
  | 0, _, _, _, t => t
  | n + 1, i, l, r, t =>
    let (l, r) := encrypt t (l ^^^ word salt i) (r ^^^ word salt (i + 1))
    refill salt n (i + 2) l r ((t.setIfInBounds i l).setIfInBounds (i + 1) r)

/-- The tables after a key and a salt. -/
def expand (salt key : Array UInt32) (t : Tables) : Tables :=
  refill salt (tableSize / 2) 0 0 0 (mixKey key keyCount 0 t)

/-- The salt that changes nothing. -/
def noSalt : Array UInt32 := #[0]

/-- Key and salt mixed in turn, a number of times. -/
def alternate (salt key : Array UInt32) : Nat → Tables → Tables
  | 0, t => t
  | n + 1, t => alternate salt key n (expand noSalt salt (expand noSalt key t))

/-- The tables after a key with a salt and a cost, each step of which doubles the work. -/
def schedule (cost : Nat) (salt key : Array UInt32) : Tables :=
  alternate salt key (1 <<< cost) (expand salt key initial)

/-- A block put through the cipher a number of times. -/
def repeated (t : Tables) : Nat → UInt32 → UInt32 → UInt32 × UInt32
  | 0, l, r => (l, r)
  | n + 1, l, r =>
    let (l, r) := encrypt t l r
    repeated t n l r

end Bookkeeping.Cipher
