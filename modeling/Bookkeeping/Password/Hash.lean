import Bookkeeping.Password.Cipher
import Bookkeeping.Password.Scheme
import Bookkeeping.Text.Bytes

/-! # Password hashes

A password is hashed with a salt and a cost: both key the cipher, a fixed text is put through it,
and the result is written with cost and salt in front, in an alphabet of 64 characters. A candidate
fits a hash if hashing it with the same cost and salt gives the same text; what does not have the
form of a hash fits no password.
-/

namespace Bookkeeping.Hash

/-- The 64 characters that bytes are written in. -/
def alphabet : List Char :=
  "./ABCDEFGHIJKLMNOPQRSTUVWXYZabcdefghijklmnopqrstuvwxyz0123456789".toList

/-- The character of six bits. -/
def sixBits (n : Nat) : Char := alphabet[n % 64]?.getD '.'

/-- Bytes in the alphabet, three at a time; missing bits at the end are zero. -/
def encode : List Nat → List Char
  | [] => []
  | [a] => [sixBits (a / 4), sixBits (a * 16)]
  | [a, b] => [sixBits (a / 4), sixBits (a * 16 + b / 16), sixBits (b * 4)]
  | a :: b :: c :: rest =>
    sixBits (a / 4) :: sixBits (a * 16 + b / 16) :: sixBits (b * 4 + c / 64) :: sixBits c
      :: encode rest

/-- The bytes of characters of the alphabet; bits that make no whole byte are dropped. -/
def decode? : List Char → Option (List Nat)
  | a :: b :: rest => do
    let a ← alphabet.idxOf? a
    let b ← alphabet.idxOf? b
    let first := a * 4 + b / 16
    match rest with
    | [] => some [first]
    | c :: rest =>
      let c ← alphabet.idxOf? c
      let second := b % 16 * 16 + c / 4
      match rest with
      | [] => some [first, second]
      | d :: rest =>
        let d ← alphabet.idxOf? d
        let more ← decode? rest
        some (first :: second :: (c % 4 * 64 + d) :: more)
  | [_] => none
  | [] => some []

/-- Words of four bytes, the first byte highest. -/
def wordsOf : List Nat → List UInt32
  | a :: b :: c :: d :: rest => UInt32.ofNat (((a * 256 + b) * 256 + c) * 256 + d) :: wordsOf rest
  | _ => []

/-- The bytes of a word. -/
def bytesOf (w : UInt32) : List Nat :=
  let n := w.toNat
  [n >>> 24, (n >>> 16) % 256, (n >>> 8) % 256, n % 256]

/-- The longest password in bytes. -/
def maxBytes : Nat := 72

/-- The words of a password: its bytes with a zero at the end, over and over. Four repetitions come
out even. -/
def keyOf (password : String) : Array UInt32 :=
  let bytes := (Text.bytes password ++ [0]).take maxBytes
  (wordsOf (bytes ++ bytes ++ bytes ++ bytes)).toArray

/-- The text that is put through the cipher. -/
def plain : List UInt32 := wordsOf (Text.bytes "OrpheanBeholderScryDoubt")

/-- The plain text put through the cipher, block by block. -/
def digest (t : Cipher.Tables) : List UInt32 → List Nat
  | a :: b :: rest =>
    let (l, r) := Cipher.repeated t 64 a b
    bytesOf l ++ bytesOf r ++ digest t rest
  | _ => []

/-- The form of hashes that are made. -/
def version : String := "2b"

/-- The forms of hashes that are accepted. -/
def versions : List String := ["2a", "2b", "2x", "2y"]

/-- What stands in front of salt and digest. -/
def header (version : String) (cost : Nat) : String :=
  "$" ++ version ++ "$" ++ (if cost < 10 then "0" else "") ++ toString cost ++ "$"

/-- The hash of a password. -/
def make (version : String) (cost : Nat) (salt : List Nat) (password : String) : String :=
  let tables := Cipher.schedule cost (wordsOf salt).toArray (keyOf password)
  header version cost ++ String.ofList (encode salt ++ encode ((digest tables plain).take 23))

/-- Version, cost and salt of a text that has the form of a hash. -/
def parts? (hash : String) : Option (String × Nat × List Nat) := do
  let cs := hash.toList
  let version := String.ofList ((cs.drop 1).take 2)
  let [tens, ones] := (cs.drop 4).take 2 | none
  if !(tens.isDigit && ones.isDigit) then none
  else
    let cost := (tens.toNat - 48) * 10 + (ones.toNat - 48)
    let salt ← decode? ((cs.drop 7).take 22)
    if cs.length == 60 && versions.contains version && 4 ≤ cost && cost ≤ 31
        && (header version cost).toList.isPrefixOf cs then
      some (version, cost, salt)
    else none

/-- Whether a candidate fits a hash. -/
def check (hash candidate : String) : Bool :=
  if maxBytes < (Text.bytes candidate).length then false
  else
    match parts? hash with
    | none => false
    | some (version, cost, salt) => make version cost salt candidate == hash

/-- Sixteen bytes of salt picked by a number. -/
def saltOf (n : Nat) : List Nat :=
  (List.range 16).map fun i => (((n + 1) * 2654435761 + i * 40503) >>> (i % 8)) % 256

/-- The scheme of this module at a given cost. -/
def scheme (cost : Nat) : PasswordScheme where
  hash n password := make version cost (saltOf n) password
  check := check

end Bookkeeping.Hash
