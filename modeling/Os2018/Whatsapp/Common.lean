import Mathlib.Data.Char
import Mathlib.Data.List.Lex

/-!
# The chat application: what both sides share

Strings are lists of bytes, and a byte is the character with that code, so
that literals can be written as they stand in the source. The order of
`std::string` is the lexicographic order of its bytes.

The limits of `whatsappio.h`, the marker frame that precedes a forwarded chat
message, and the fixed response frames are those of `whatsappCommon.h`.
-/

set_option autoImplicit false

namespace Os2018.Whatsapp

/-- A byte of a `char` array. -/
abbrev Byte := Char

/-- A `std::string`, the list of its bytes. -/
abbrev CppString := List Byte

instance : LawfulBEq CppString := inferInstance

/-- The byte that ends a C string. -/
def nul : Byte := Char.ofNat 0

/-- The C string at the start of a buffer. -/
def cString (buf : CppString) : CppString := buf.takeWhile (· ≠ nul)

/-! ## Limits -/

def waMaxName : Nat := 30

def waMaxGroup : Nat := 50

/-- The length of every frame on the wire. -/
def waMaxInput : Nat := (waMaxName + 1) * (waMaxGroup + 2)

theorem waMaxInput_pos : 0 < waMaxInput := by decide

/-! ## Frames with a fixed text -/

/-- The marker frame `SEND_QUE` that announces a chat message. -/
def sendQue : CppString := "SEND\n".toList

/-- The frame of `sendSuccessSignal`. -/
def successSignal : CppString := "success".toList

/-- The frame of `sendFailureSignal`. -/
def failureSignal : CppString := "failure".toList

/-- The frame of `sendNameExistsSignal`. -/
def nameExistsSignal : CppString := "name_exists".toList

/-- The frame of `sendExitSignal`. -/
def exitSignal : CppString := "server_exit".toList

def isServerExit (command : CppString) : Bool := command = exitSignal

def isMessageFrom (command : CppString) : Bool := command = sendQue

end Os2018.Whatsapp
