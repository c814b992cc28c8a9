/-!
# Where bytes stop being UTF-8

A character takes one to four bytes. The first byte says how many follow and between which bounds
the second one lies; all later ones lie between `0x80` and `0xbf`. `firstFault` walks through the
bytes and reports where the first character starts that is not written so.
-/

namespace RecordChain.Utf8

/-- The first character that is not well written. -/
structure Fault where
  /-- The offset at which the character starts. All before it is well written. -/
  offset : Nat
  /-- The number of bytes that could start a character but for the one after them, or `none` where
  the input ends before the character does. -/
  length : Option Nat
deriving DecidableEq

/-- What a first byte asks for: the number of bytes that follow and the bounds of the second. -/
def following (byte : UInt8) : Option (Nat × UInt8 × UInt8) :=
  if byte < 0xc2 then none
  else if byte ≤ 0xdf then some (1, 0x80, 0xbf)
  else if byte = 0xe0 then some (2, 0xa0, 0xbf)
  else if byte = 0xed then some (2, 0x80, 0x9f)
  else if byte ≤ 0xef then some (2, 0x80, 0xbf)
  else if byte = 0xf0 then some (3, 0x90, 0xbf)
  else if byte ≤ 0xf3 then some (3, 0x80, 0xbf)
  else if byte = 0xf4 then some (3, 0x80, 0x8f)
  else none

/-- The walk: `start` is where the current character starts, `seen` counts its bytes so far, `owed`
those still to come, of which the next lies between `low` and `high`. -/
def scan (start seen owed : Nat) (low high : UInt8) : List UInt8 → Fault
  | [] => ⟨start, none⟩
  | byte :: rest =>
    if owed = 0 then
      if byte < 0x80 then scan (start + 1) 0 0 low high rest
      else match following byte with
        | none => ⟨start, some 1⟩
        | some (count, low, high) => scan start 1 count low high rest
    else if low ≤ byte ∧ byte ≤ high then
      if owed = 1 then scan (start + seen + 1) 0 0 0x80 0xbf rest
      else scan start (seen + 1) (owed - 1) 0x80 0xbf rest
    else ⟨start, some seen⟩

/-- The first fault of a text that is not UTF-8. Of a text that is, its end. -/
def firstFault (bytes : List UInt8) : Fault := scan 0 0 0 0x80 0xbf bytes

/-- The fault in words. -/
def Fault.message (fault : Fault) : String :=
  match fault.length with
  | some n => s!"invalid utf-8 sequence of {n} bytes from index {fault.offset}"
  | none => s!"incomplete utf-8 byte sequence from index {fault.offset}"

end RecordChain.Utf8
