import Lc3.ObjectFile

/-!
# Object code as bytes

The origin and then the words, each with its high byte first. A list of bytes is object code if its
length is even and not zero.
-/

namespace Lc3

/-- The two bytes of a word, the high one first. -/
def Word.bytes (w : Word) : List Byte := [w.extractLsb' 8 8, w.extractLsb' 0 8]

/-- The words that pairs of bytes make up; `none` if a byte is left over. -/
def Word.ofBytes? : List Byte → Option (List Word)
  | [] => some []
  | [_] => none
  | high :: low :: rest => (ofBytes? rest).map ((high ++ low) :: ·)

namespace ObjectFile

/-- The bytes of the origin and of the words. -/
def bytes (o : ObjectFile) : List Byte := (o.orig :: o.words).flatMap Word.bytes

/-- The origin and the words that bytes stand for. -/
def ofBytes? (bytes : List Byte) : Option (Word × List Word) :=
  match Word.ofBytes? bytes with
  | some (orig :: words) => some (orig, words)
  | _ => none

end ObjectFile

end Lc3
