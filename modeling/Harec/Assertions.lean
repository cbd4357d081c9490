import Mathlib.Tactic.IntervalCases
import Mathlib.Data.Nat.Digits
import Harec.Monad
import Harec.Reference

/-!
# The message of an assertion without one

`check_expr_assert` gives an `assert` without a message the text
`"Assertion failed: <path>:<line>:<col>"`: it asks `snprintf(NULL, 0, ...)` for the text's
length `n`, allocates `n + 1` zeroed bytes, and prints into them with `snprintf(s, n, ...)`.
That call writes at most `n - 1` characters and a terminating null, so the string constant
has length `n` but its last byte is the null where the text has the last digit of the
column (§4.4).  Since a column prints with at least one digit, this happens at every
location: `checkExprAssert_messageTruncated`.
-/

namespace Harec

/-! ## Bytes of a text -/

theorem ByteArray.toList_loop_eq (bs : ByteArray) :
    ∀ (k i : Nat) (r : List UInt8), bs.size - i = k →
      ByteArray.toList.loop bs i r = r.reverse ++ bs.data.toList.drop i
  | 0, i, r, h => by
    unfold ByteArray.toList.loop
    rw [if_neg (by omega), List.drop_eq_nil_of_le (by simp [ByteArray.size] at h ⊢; omega), List.append_nil]
  | k + 1, i, r, h => by
    unfold ByteArray.toList.loop
    have hi : i < bs.data.toList.length := by simp [ByteArray.size] at h ⊢; omega
    rw [if_pos (by omega), ByteArray.toList_loop_eq bs k (i + 1) _ (by omega), List.reverse_cons,
      List.append_assoc, List.drop_eq_getElem_cons hi]
    simp only [ByteArray.get!, Array.get!, Array.getD, List.singleton_append]
    simp_all

/-- `ByteArray.toList` lists the bytes of the array. -/
theorem ByteArray.toList_eq (bs : ByteArray) : bs.toList = bs.data.toList := by
  simpa using ByteArray.toList_loop_eq bs _ 0 [] rfl

theorem toDigitsCore_append (b : Nat) :
    ∀ (f n : Nat) (ds : List Char), Nat.toDigitsCore b f n ds = Nat.toDigitsCore b f n [] ++ ds
  | 0, _, _ => rfl
  | f + 1, n, ds => by
    simp only [Nat.toDigitsCore]
    split
    · rfl
    · rw [toDigitsCore_append b f _ (_ :: ds), toDigitsCore_append b f _ [_]]
      simp

/-- A number prints in decimal ending with its last digit. -/
theorem toDigits_last (n : Nat) : ∃ ds, Nat.toDigits 10 n = ds ++ [Nat.digitChar (n % 10)] := by
  simp only [Nat.toDigits, Nat.toDigitsCore]
  split
  · exact ⟨[], rfl⟩
  · exact ⟨_, toDigitsCore_append 10 n _ _⟩

theorem utf8EncodeChar_digitChar {k : Nat} (h : k < 10) :
    ∃ x, String.utf8EncodeChar (Nat.digitChar k) = [x] ∧ x ≠ 0 := by
  interval_cases k <;> exact ⟨_, rfl, by decide⟩

/-- An `int` prints as a sign, if any, and the decimal digits of its magnitude. -/
theorem toString_int_data (c : Int) : ∃ pre m, (toString c).data = pre ++ Nat.toDigits 10 m := by
  cases c with
  | ofNat m => exact ⟨[], m, rfl⟩
  | negSucc m => exact ⟨['-'], m + 1, rfl⟩

/-- The UTF-8 encoding of an assertion text ends with a byte that is not null: the last
digit of the column. -/
theorem assertionText_bytes (loc : Location) :
    ∃ bs x, (assertionText loc).toUTF8.toList = bs ++ [x] ∧ x ≠ 0 := by
  obtain ⟨pre, m, hcol⟩ := toString_int_data loc.colno
  obtain ⟨ds, hds⟩ := toDigits_last m
  obtain ⟨x, hx, hx0⟩ := utf8EncodeChar_digitChar (Nat.mod_lt m (by decide : 10 > 0))
  refine ⟨(("Assertion failed: " ++ loc.path ++ ":" ++ toString loc.lineno ++ ":").data ++ pre ++ ds).flatMap
    String.utf8EncodeChar, x, ?_, hx0⟩
  have htext : (assertionText loc).data =
      ("Assertion failed: " ++ loc.path ++ ":" ++ toString loc.lineno ++ ":").data ++
        (toString loc.colno).data := rfl
  rw [ByteArray.toList_eq]
  show (assertionText loc).data.flatMap String.utf8EncodeChar = _
  rw [htext, hcol, hds, ← List.append_assoc, ← List.append_assoc, List.flatMap_append,
    List.flatMap_singleton, hx]

theorem assertionText_bytes_length (loc : Location) :
    (assertionText loc).toUTF8.toList.length = (assertionText loc).utf8ByteSize := by
  rw [ByteArray.toList_eq, Array.length_toList, ← String.size_toUTF8]
  rfl

/-! ## The synthesised message -/

section Message

variable (env : Env)

/-- Every `assert` without a message that `check_expr_assert` accepts gets a string constant
whose length is that of its text, but whose bytes are the text with its last byte, a digit
of the column, replaced by a null. -/
theorem checkExprAssert_messageTruncated {loc : Location} {cond : Option Child} {ctx ctx' : Context}
    {e : Expression} (h : (checkExprAssert env loc cond none).run ctx = .ok (e, ctx')) :
    ∃ c bytes, e = .mk (some env.builtinVoid) cond.isNone (.assert c (.mk (some env.builtinConstStr) false
        (.constant (.string (assertionText loc).utf8ByteSize bytes) []))) ∧
      bytes.length = (assertionText loc).utf8ByteSize ∧
      bytes = (assertionText loc).toUTF8.toList.dropLast ++ [0] ∧
      bytes ≠ (assertionText loc).toUTF8.toList := by
  have hret : Returns (checkExprAssert env loc cond none) fun e => ∃ c,
      e = .mk (some env.builtinVoid) cond.isNone (.assert c (.mk (some env.builtinConstStr) false
        (.constant (.string (assertionText loc).toUTF8.toList.length
          ((assertionText loc).toUTF8.toList.take ((assertionText loc).toUTF8.toList.length - 1) ++ [0]))
          []))) := by
    cases cond <;> simp only [checkExprAssert, bind_assoc, pure_bind]
    · exact Returns.pure ⟨none, rfl⟩
    · exact Returns.bind fun _ => Returns.bind fun _ => Returns.bind fun _ => Returns.pure ⟨_, rfl⟩
  obtain ⟨c, rfl⟩ := hret.of_run h
  obtain ⟨bs, x, ht, hx⟩ := assertionText_bytes loc
  have hlen := assertionText_bytes_length loc
  rw [ht] at hlen ⊢
  refine ⟨c, bs ++ [0], ?_, by simpa using hlen, by simp, fun heq => hx ?_⟩
  · rw [← hlen]
    simp
  · simpa using (List.append_cancel_left heq).symm

end Message

open Reference

/-- At `main.ha:1:1`, an `assert` with neither condition nor message gets the constant
`"Assertion failed: main.ha:1:"` followed by a null, of the length 29 of the text
`"Assertion failed: main.ha:1:1"`. -/
theorem checkExprAssert_here_truncated (env : Env) (ctx : Context) :
    (checkExprAssert env here none none).run ctx =
      .ok (.mk (some env.builtinVoid) true (.assert none (.mk (some env.builtinConstStr) false
        (.constant (.string 29 "Assertion failed: main.ha:1:\x00".toUTF8.toList) []))), ctx) ∧
      "Assertion failed: main.ha:1:1".utf8ByteSize = 29 ∧
      "Assertion failed: main.ha:1:\x00".toUTF8.toList ≠ "Assertion failed: main.ha:1:1".toUTF8.toList := by
  simp only [checkExprAssert, ByteArray.toList_eq]
  exact ⟨rfl, by decide, by decide⟩

end Harec
