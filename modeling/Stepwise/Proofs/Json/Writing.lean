/-
Plain documents: whatever there is to say can be written, with no blanks and with no escapes but
those that are needed.

Every list of characters is spelled by `pieceOf`, every integer is written by some number, and
`plainMembers` are the members of an object that holds the given fields and no others.
-/
import Mathlib.Data.List.Nodup
import Stepwise.Proofs.Json.Spelling

namespace Stepwise

namespace Text

theorem ofString_eq (s : String) : ofString s = s.toList.flatMap String.utf8EncodeChar := by
  unfold ofString
  conv => lhs; rw [← String.ofList_toList (s := s)]
  rw [String.toByteArray_ofList]
  simp [List.utf8Encode]

theorem ofString_injective {s s' : String} (h : ofString s = ofString s') : s = s' := by
  unfold ofString at h
  exact String.toByteArray_inj.1 (ByteArray.ext (Array.toList_inj.1 h))

end Text

namespace Json

/-! ## Strings and integers -/

def hexDigit (n : Nat) : HexDigit := ⟨⟨n % 16, Nat.mod_lt n (by decide)⟩, false⟩

/-- A code unit by its four digits. -/
def byCode (unit : Nat) : Piece :=
  .code (hexDigit (unit / 4096)) (hexDigit (unit / 256)) (hexDigit (unit / 16)) (hexDigit unit)

theorem Spells.byCode {s : List Piece} {t : Text} {c : Char} (hc : c.toNat < 0x10000)
    (hs : Spells s t) : Spells (byCode c.toNat :: s) (String.utf8EncodeChar c ++ t) := by
  refine .code ?_ hs
  simp only [codeUnit, hexDigit]
  omega

/-- A character as itself, or by its code if it has to be escaped. -/
def pieceOf (c : Char) : Piece :=
  if valid : 0x20 ≤ c.toNat ∧ c.toNat ≠ 0x22 ∧ c.toNat ≠ 0x5c then .char c valid
  else byCode c.toNat

theorem spells_pieceOf (cs : List Char) :
    Spells (cs.map pieceOf) (cs.flatMap String.utf8EncodeChar) := by
  induction cs with
  | nil => exact .nil
  | cons c cs ih =>
    rw [List.map_cons, List.flatMap_cons]
    unfold pieceOf
    split
    · exact .char c _ ih
    · exact .byCode (by omega) ih

theorem spells_name (name : String) : Spells (name.toList.map pieceOf) name := by
  rw [Text.ofString_eq]
  exact spells_pieceOf name.toList

theorem exists_digits (m : Nat) :
    ∃ d : Digits, d.value = m ∧ (d.first = 0 → d.rest = []) := by
  induction m using Nat.strongRecOn with
  | _ m ih =>
    by_cases hm : m < 10
    · exact ⟨⟨⟨m, hm⟩, []⟩, rfl, fun _ => rfl⟩
    · obtain ⟨d, hvalue, hvalid⟩ := ih (m / 10) (by omega)
      have hlast : m % 10 < 10 := Nat.mod_lt m (by decide)
      refine ⟨⟨d.first, d.rest ++ [⟨m % 10, hlast⟩]⟩, ?_, fun hfirst => ?_⟩
      · have happend : Digits.value ⟨d.first, d.rest ++ [⟨m % 10, hlast⟩]⟩ =
            10 * d.value + m % 10 := by
          simp [Digits.value, List.foldl_append]
        rw [happend, hvalue]
        omega
      · have hzero : d.value = 0 := by
          rw [Digits.value, hvalid hfirst, hfirst]
          rfl
        omega

theorem exists_number (i : Int) : ∃ n : Number, n.int? = some i := by
  obtain ⟨d, hvalue, hvalid⟩ := exists_digits i.natAbs
  refine ⟨⟨decide (i < 0), d, none, none, hvalid⟩, ?_⟩
  simp only [Number.int?, hvalue, Option.some.injEq, decide_eq_true_eq]
  split <;> omega

/-! ## Members -/

def plainHeading (name : String) : Heading :=
  ⟨.none, name.toList.map pieceOf, .none, .none, .none⟩

def plainMembers (fields : List (String × Json)) : List (Heading × Json) :=
  fields.map fun f => (plainHeading f.1, f.2)

theorem lacks_plainMembers {fields : List (String × Json)} {name : String}
    (h : name ∉ fields.map Prod.fst) : Lacks (plainMembers fields) name := by
  intro m hm hname
  obtain ⟨f, hf, rfl⟩ := List.mem_map.1 hm
  have heq : (f.1 : Text) = name := (spells_name f.1).unique hname
  apply h
  rw [← Text.ofString_injective heq]
  exact List.mem_map_of_mem hf

theorem holds_plainMembers {fields : List (String × Json)} (hnames : (fields.map Prod.fst).Nodup)
    {name : String} {j : Json} (h : (name, j) ∈ fields) : Holds (plainMembers fields) name j := by
  obtain ⟨before, after, rfl⟩ := List.append_of_mem h
  rw [List.map_append, List.map_cons, List.nodup_middle, List.nodup_cons, List.mem_append,
    not_or] at hnames
  refine ⟨plainMembers before, plainHeading name, plainMembers after, ?_, spells_name name, ?_, ?_⟩
  · rw [plainMembers, List.map_append, List.map_cons]
    rfl
  · exact lacks_plainMembers hnames.1.1
  · exact lacks_plainMembers hnames.1.2

theorem leads_plainMembers {fields : List (String × Json)} (hnames : (fields.map Prod.fst).Nodup)
    {name : String} {j : Json} (h : (name, j) ∈ fields) : Leads (plainMembers fields) name j := by
  obtain ⟨before, heading, after, hmembers, hname, hbefore, -⟩ := holds_plainMembers hnames h
  refine ⟨before, heading, after, hmembers, hname, hbefore, fun m hm => ?_⟩
  have hm : m ∈ plainMembers fields := hmembers ▸ List.mem_append_left _ hm
  obtain ⟨f, -, rfl⟩ := List.mem_map.1 hm
  exact (spells_name f.1).legible

@[simp]
theorem namesLegible_plainMembers {fields : List (String × Json)} :
    NamesLegible (plainMembers fields) ↔ ∀ f ∈ fields, f.2.IsLegible := by
  induction fields with
  | nil => exact ⟨fun _ => nofun, fun _ => trivial⟩
  | cons f fields ih =>
    rw [List.forall_mem_cons, ← ih]
    constructor
    · rintro ⟨-, hf, hfields⟩
      exact ⟨hf, hfields⟩
    · rintro ⟨hf, hfields⟩
      exact ⟨(spells_name f.1).legible, hf, hfields⟩

/-- Values as the elements of an array without blanks. -/
def plainElements (js : List Json) : List (Padding × Json) := js.map fun j => (⟨.none, .none⟩, j)

theorem map_snd_plainElements (js : List Json) : (plainElements js).map Prod.snd = js := by
  simp [plainElements, Function.comp_def]

@[simp]
theorem areLegible_plainElements {js : List Json} :
    AreLegible (plainElements js) ↔ ∀ j ∈ js, j.IsLegible := by
  induction js with
  | nil => exact ⟨fun _ => nofun, fun _ => trivial⟩
  | cons j js ih =>
    rw [List.forall_mem_cons, ← ih]
    rfl

end Json
end Stepwise
