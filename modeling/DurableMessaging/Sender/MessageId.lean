/-!
# Message ids

Every message that is sent gets an id of its own, written like a random identifier of 128 bits.
-/

namespace DurableMessaging.MessageId

/-- Lower-case hex digits, with zeros in front up to a width. -/
def hexPadded (width n : Nat) : List Char :=
  let digits := Nat.toDigits 16 n
  List.replicate (width - digits.length) '0' ++ digits

/-- So many bits of a number, from a place on. -/
def bits (n place count : Nat) : Nat := (n >>> place) % (1 <<< count)

/-- The id of the n-th draw. -/
def ofDraw (n : Nat) : String :=
  String.ofList
    (hexPadded 8 (bits n 48 32) ++ '-' :: hexPadded 4 (bits n 80 16) ++
      ['-', '4'] ++ hexPadded 3 (bits n 96 12) ++ ['-', '8'] ++
      hexPadded 3 (n >>> 108) ++ '-' :: hexPadded 12 (bits n 0 48))

end DurableMessaging.MessageId
