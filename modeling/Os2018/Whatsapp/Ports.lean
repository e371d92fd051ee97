import Os2018.Library.Numerals
import Os2018.Whatsapp.Common

/-!
# The port number

The server takes its port from the command line. `toUnsignedShort` looks at the
first byte, lets `strtol` read the number, and casts what it gives to 16 bits.
`strtol` also takes a sign, and the cast also takes numbers that do not fit. So
the port is the one that was typed exactly if the argument is not one of these
(`portIsTyped_iff`).
-/

set_option autoImplicit false

namespace Os2018.Whatsapp

open Numerals

/-! ## The code -/

/-- The number of values of an `unsigned short`. -/
def unsignedShortRange : Nat := 2 ^ 16

/-- `s[0]`, which is the terminator of an empty string. -/
def firstByte (s : CppString) : Byte := s.headD nul

/-- `toUnsignedShort`: its result, and `output` afterwards. -/
def toUnsignedShort (s : CppString) (output : Nat) : Bool × Nat :=
  if firstByte s = nul ∨
      (isDigit (firstByte s) = false ∧ firstByte s ≠ '-') ∧ firstByte s ≠ '+' then
    (false, output)
  else
    let (number, p) := strtol s
    (firstByte p = nul, (number % unsignedShortRange).toNat)

/-- The port that `main` makes the server listen on, if it starts one. -/
def serverPort (argv : List CppString) : Option Nat :=
  match argv with
  | [_, port] =>
      match toUnsignedShort port 0 with
      | (true, portnum) => some portnum
      | (false, _) => none
  | _ => none

/-! ## Statement -/

/-- An accepted argument is a numeral of a port, and the port is its value. -/
structure PortIsTyped (s : CppString) : Prop where
  accepted : ∀ before output, toUnsignedShort s before = (true, output) →
    IsNumeral s ∧ value s < unsignedShortRange ∧ output = value s
  listens : ∀ program port, serverPort [program, s] = some port →
    IsNumeral s ∧ value s < unsignedShortRange ∧ port = value s

/-- The argument is a number with a sign, or a number that is no port. -/
def IsMisread (s : CppString) : Prop :=
  IsSigned s ∨ IsNumeral s ∧ unsignedShortRange ≤ value s

/-! ## What is accepted -/

theorem passes_iff {first : Byte} {rest : CppString} (noNul : first ≠ nul) :
    ¬ (firstByte (first :: rest) = nul ∨ (isDigit (firstByte (first :: rest)) = false ∧
        firstByte (first :: rest) ≠ '-') ∧ firstByte (first :: rest) ≠ '+') ↔
      isDigit first = true ∨ IsSign first := by
  rw [firstByte, List.headD_cons, IsSign, or_iff_right noNul, not_and_or, not_and_or, not_not,
    not_not, Bool.not_eq_false, or_assoc]

/-- A string without NUL is at its end when the next byte is the terminator. -/
theorem firstByte_eq_nul_iff {s p : CppString} (noNul : nul ∉ s) (part : p <:+ s) :
    firstByte p = nul ↔ p = [] := by
  cases p with
  | nil => exact iff_of_true rfl rfl
  | cons first rest =>
      refine iff_of_false ?_ (List.cons_ne_nil _ _)
      rintro (rfl : first = nul)
      exact noNul (part.subset List.mem_cons_self)

/-- **What `toUnsignedShort` accepts.** Numerals, and numerals behind a sign; the
port is the number that `strtol` gives, cut to 16 bits. -/
theorem toUnsignedShort_eq_true_iff {s : CppString} (noNul : nul ∉ s) {before output : Nat} :
    toUnsignedShort s before = (true, output) ↔
      (IsNumeral s ∨ IsSigned s) ∧ output = ((strtol s).1 % unsignedShortRange).toNat := by
  cases s with
  | nil =>
      refine iff_of_false (by simp [toUnsignedShort, firstByte]) ?_
      rintro ⟨numeral | ⟨_, _, same, -⟩, -⟩
      · exact numeral.nonempty rfl
      · cases same
  | cons first rest =>
      have notNul : first ≠ nul := fun same => noNul (same ▸ List.mem_cons_self)
      rw [toUnsignedShort]
      split_ifs with rejected
      · refine iff_of_false (by simp) ?_
        rintro ⟨numeral | ⟨sign, digits, same, isSign, -⟩, -⟩
        · exact (passes_iff notNul).mpr (.inl (numeral.digits first List.mem_cons_self)) rejected
        · cases same
          exact (passes_iff notNul).mpr (.inr isSign) rejected
      · rw [← strtol_reads_all_iff ((passes_iff notNul).mp rejected),
          ← firstByte_eq_nul_iff noNul (strtol_suffix _), Prod.mk.injEq, decide_eq_true_eq,
          eq_comm (a := output)]

theorem longMin_le_value (s : CppString) : longMin ≤ value s :=
  le_trans (by decide) (Int.natCast_nonneg _)

/-- The port of a numeral that is one. -/
theorem strtol_port {s : CppString} (numeral : IsNumeral s) (small : value s < unsignedShortRange) :
    ((strtol s).1 % unsignedShortRange).toNat = value s := by
  have below : (value s : Int) ≤ longMax := by
    have : unsignedShortRange = 65536 := rfl
    rw [longMax]
    omega
  rw [strtol_numeral numeral, clamp_of_mem (longMin_le_value s) below]
  dsimp only
  rw [← Int.natCast_emod, Int.toNat_natCast, Nat.mod_eq_of_lt small]

theorem not_isNumeral_of_isSigned {s : CppString} (signed : IsSigned s) : ¬ IsNumeral s := by
  obtain ⟨sign, digits, rfl, isSign, -⟩ := signed
  intro numeral
  have digit := numeral.digits sign List.mem_cons_self
  rw [isDigit_eq_false_of_isSign isSign] at digit
  cases digit

/-- The only accepted arguments that are not misread are numerals of ports. -/
theorem port_of_accepted {s : CppString} (noNul : nul ∉ s) (notMisread : ¬ IsMisread s)
    {before output : Nat} (accepted : toUnsignedShort s before = (true, output)) :
    IsNumeral s ∧ value s < unsignedShortRange ∧ output = value s := by
  obtain ⟨isNumber, rfl⟩ := (toUnsignedShort_eq_true_iff noNul).mp accepted
  have numeral : IsNumeral s := isNumber.resolve_right fun signed => notMisread (.inl signed)
  have small : value s < unsignedShortRange :=
    not_le.mp fun large => notMisread (.inr ⟨numeral, large⟩)
  exact ⟨numeral, small, strtol_port numeral small⟩

/-- **The port that was typed.** For every C string, an accepted argument is a
numeral of a port and gives that port exactly if the string is not a number with
a sign and not a number that is no port. -/
theorem portIsTyped_iff {s : CppString} (noNul : nul ∉ s) : PortIsTyped s ↔ ¬ IsMisread s := by
  constructor
  · intro typed misread
    have isNumber : IsNumeral s ∨ IsSigned s := misread.symm.imp And.left id
    obtain ⟨numeral, small, -⟩ :=
      typed.accepted 0 _ ((toUnsignedShort_eq_true_iff noNul).mpr ⟨isNumber, rfl⟩)
    rcases misread with signed | ⟨-, large⟩
    · exact not_isNumeral_of_isSigned signed numeral
    · exact absurd small (not_lt.mpr large)
  · intro notMisread
    refine ⟨fun _ _ => port_of_accepted noNul notMisread, fun program port listens => ?_⟩
    rw [serverPort] at listens
    split at listens
    next portnum accepted =>
      cases listens
      exact port_of_accepted noNul notMisread accepted
    · cases listens

theorem portIsTyped_iff_plain : PortIsTyped "8080".toList := by
  refine (portIsTyped_iff (by decide)).mpr ?_
  rintro (signed | ⟨-, large⟩)
  · have digits : "8080".toList.all isDigit = true := by decide
    exact not_isNumeral_of_isSigned signed ⟨by decide, List.all_eq_true.mp digits⟩
  · exact absurd large (by decide)

/-- **A port that nobody typed.** `"70000"` is accepted, as port 4464. -/
theorem large_number_wraps : ¬ PortIsTyped "70000".toList := by
  intro typed
  have accepted : toUnsignedShort "70000".toList 0 = (true, 4464) := by decide +kernel
  have value : (4464 : Nat) = 70000 := (typed.accepted 0 4464 accepted).2.2
  exact absurd value (by decide)

end Os2018.Whatsapp
