import RegexEngine.CharSet.Basic
import RegexEngine.Text.Hex

/-!
# Character Sets as Text

The written form of a character set: whether it is negated, its small members, its ranges, its
kinds, whether case matters, and its folded ranges, separated by semicolons. Flags are digits. The
small members are eight words of thirty-two bits, the smallest code points in the first word and in
the lowest bits. Nothing is sorted or merged.

## Main definitions

* `CharSet.render`: writes a set.
* `CharSet.read?`: reads a set.
-/

namespace RegexEngine

namespace ByteSet

/-- Eight words of eight hexadecimal digits. -/
def render (set : ByteSet) : String :=
  String.join (set.words.toList.map fun word => Text.paddedHex 8 word.toNat)

/-- Reads as many words of eight hexadecimal digits as there are. -/
def readWords? : (count : Nat) → List Char → Option (List UInt32)
  | 0, [] => some []
  | 0, _ :: _ => none
  | count + 1, cs =>
    match Text.readHex? (cs.take 8), readWords? count (cs.drop 8) with
    | some w, some rest => some (w.toUInt32 :: rest)
    | _, _ => none

/-- Reads eight words of eight hexadecimal digits. -/
def read? (cs : List Char) : Option ByteSet :=
  (readWords? 8 cs).map fun words => ⟨Vector.ofFn fun i => words.getD i 0⟩

end ByteSet

namespace CharSet

/-- A flag as a digit. -/
def flag (b : Bool) : String :=
  if b then "1" else "0"

/-- Ranges in base sixteen. -/
def renderRanges (ranges : List (Nat × Nat)) : String :=
  ",".intercalate (ranges.map fun r => Text.hex r.1 ++ "-" ++ Text.hex r.2)

/-- Kinds by number, a negated one after an exclamation mark. -/
def renderKinds (kinds : List (CharKind × Bool)) : String :=
  ",".intercalate (kinds.map fun k => (if k.2 then "!" else "") ++ toString k.1.number)

/-- The written form of a set. -/
def render (set : CharSet) : String :=
  ";".intercalate [flag set.negated, set.low.render, renderRanges set.ranges, renderKinds set.kinds,
    flag set.ignoreCase, renderRanges set.foldRanges]

/-- Reads one range. -/
def readRange? (cs : List Char) : Option (Nat × Nat) :=
  match Text.pieces '-' cs with
  | [a, b] =>
    match Text.readHex? a, Text.readHex? b with
    | some low, some high => some (low, high)
    | _, _ => none
  | _ => none

/-- Reads one kind. -/
def readKind? : List Char → Option (CharKind × Bool)
  | '!' :: cs => (Text.readNat? cs).map fun n => (CharKind.ofNumber n, true)
  | cs => (Text.readNat? cs).map fun n => (CharKind.ofNumber n, false)

/-- Reads the written form of a set. -/
def read? (cs : List Char) : Option CharSet :=
  match Text.pieces ';' cs with
  | [negated, low, ranges, kinds, ignoreCase, foldRanges] =>
    match ByteSet.read? low, (Text.fields ',' ranges).mapM readRange?,
      (Text.fields ',' kinds).mapM readKind?, (Text.fields ',' foldRanges).mapM readRange? with
    | some low, some ranges, some kinds, some foldRanges =>
      some
        { negated := negated == ['1'], low := low, ranges := ranges, kinds := kinds,
          ignoreCase := ignoreCase == ['1'], foldRanges := foldRanges }
    | _, _, _, _ => none
  | _ => none

end CharSet

end RegexEngine
