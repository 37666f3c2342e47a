import OpenClaw.Foundation.JsonLayout
import OpenClaw.Foundation.PyJson
import OpenClaw.Foundation.TextBytes

/-!
# Indented text that is not escaped

`json.dumps` with `indent` and without `ensure_ascii`. Such a text has an encoding where every
string in the value has one.
-/

namespace Foundation

set_option autoImplicit false

namespace PyStr

/-- A string without lone surrogates. -/
def Encodable (s : PyStr) : Prop := s.chars?.isSome

instance (s : PyStr) : Decidable s.Encodable := inferInstanceAs (Decidable (_ = true))

theorem encodable_iff {s : PyStr} : s.Encodable ↔ ∃ cs, s = ofList cs := by
  rw [Encodable, Option.isSome_iff_exists]
  constructor
  · rintro ⟨cs, hcs⟩
    exact ⟨cs, (ofList_chars? hcs).symm⟩
  · rintro ⟨cs, rfl⟩
    exact ⟨cs, chars?_ofList cs⟩

theorem encodable_ofList (cs : List Char) : (ofList cs).Encodable := encodable_iff.mpr ⟨cs, rfl⟩

theorem ofList_append (cs ds : List Char) : ofList (cs ++ ds) = ofList cs ++ ofList ds :=
  List.flatMap_append

theorem Encodable.append {s t : PyStr} (hs : s.Encodable) (ht : t.Encodable) :
    (s ++ t).Encodable := by
  obtain ⟨cs, rfl⟩ := encodable_iff.mp hs
  obtain ⟨ds, rfl⟩ := encodable_iff.mp ht
  rw [← ofList_append]
  exact encodable_ofList _

end PyStr

namespace Json
variable {φ : Type}

/-- A unit that stands for itself is none of the escaped ones. -/
theorem rawUnit_utf16 (c : Char) : ∃ cs, (utf16 c).flatMap rawUnit = PyStr.ofList cs := by
  have hself : ∀ u : CodeUnit, ¬(u.val < 32 ∨ u.val = 34 ∨ u.val = 92) → rawUnit u = [u] :=
    fun u hu => if_neg hu
  by_cases hc : c.toNat < 65536
  · rw [utf16, if_pos hc, List.flatMap_singleton]
    by_cases hu : (Fin.ofNat 65536 c.toNat).val < 32 ∨ (Fin.ofNat 65536 c.toNat).val = 34 ∨
        (Fin.ofNat 65536 c.toNat).val = 92
    · exact ⟨_, if_pos hu⟩
    · refine ⟨[c], ?_⟩
      rw [hself _ hu, PyStr.ofList, List.flatMap_singleton, utf16, if_pos hc]
  · have hvalid : c.toNat < 0xD800 ∨ (0xDFFF < c.toNat ∧ c.toNat < 0x110000) := c.valid
    refine ⟨[c], ?_⟩
    rw [utf16, if_neg hc, PyStr.ofList, List.flatMap_singleton, utf16, if_neg hc,
      List.flatMap_cons, List.flatMap_singleton, hself, hself]
    · rfl
    · simp only [Fin.val_ofNat]
      omega
    · simp only [Fin.val_ofNat]
      omega

theorem rawQuote_encodable {s : PyStr} (h : s.Encodable) : (rawQuote s).Encodable := by
  obtain ⟨cs, rfl⟩ := PyStr.encodable_iff.mp h
  have hbody : ∀ cs, PyStr.Encodable ((PyStr.ofList cs).flatMap rawUnit) := by
    intro cs
    induction cs with
    | nil => exact PyStr.encodable_ofList []
    | cons c cs ih =>
      obtain ⟨ds, hds⟩ := rawUnit_utf16 c
      have hcons : PyStr.ofList (c :: cs) = utf16 c ++ PyStr.ofList cs := rfl
      rw [hcons, List.flatMap_append, hds]
      exact (PyStr.encodable_ofList ds).append ih
  exact ((PyStr.encodable_ofList _).append (hbody cs)).append (PyStr.encodable_ofList _)

section Render
variable (repr : φ → List Char)

def rawIndent (d : ℕ) : PyStr := PyStr.ofList (newlineIndent d)

mutual

def rawRenderAt : ℕ → Json φ → PyStr
  | _, .null => PyStr.ofList ['n', 'u', 'l', 'l']
  | _, .bool true => PyStr.ofList ['t', 'r', 'u', 'e']
  | _, .bool false => PyStr.ofList ['f', 'a', 'l', 's', 'e']
  | _, .int i => PyStr.ofList (showInt i)
  | _, .float x => PyStr.ofList (repr x)
  | _, .str s => rawQuote s
  | _, .arr [] => PyStr.ofList ['[', ']']
  | d, .arr (j :: items) => PyStr.ofList ['['] ++ rawIndent (d + 1) ++ rawRenderAt (d + 1) j ++
    rawItemsAt d items ++ rawIndent d ++ PyStr.ofList [']']
  | _, .obj [] => PyStr.ofList ['{', '}']
  | d, .obj ((k, j) :: fields) => PyStr.ofList ['{'] ++ rawIndent (d + 1) ++ rawQuote k ++
    PyStr.ofList [':', ' '] ++ rawRenderAt (d + 1) j ++ rawFieldsAt d fields ++ rawIndent d ++
    PyStr.ofList ['}']

def rawItemsAt : ℕ → List (Json φ) → PyStr
  | _, [] => []
  | d, j :: items =>
    PyStr.ofList [','] ++ rawIndent (d + 1) ++ rawRenderAt (d + 1) j ++ rawItemsAt d items

def rawFieldsAt : ℕ → List (PyStr × Json φ) → PyStr
  | _, [] => []
  | d, (k, j) :: fields => PyStr.ofList [','] ++ rawIndent (d + 1) ++ rawQuote k ++
    PyStr.ofList [':', ' '] ++ rawRenderAt (d + 1) j ++ rawFieldsAt d fields

end

/-- `json.dumps(j, indent=2, ensure_ascii=False)`. -/
def rawDumpsIndent (j : Json φ) : PyStr := rawRenderAt repr 0 j

end Render

/-- No string of the value, keys included, has a lone surrogate. -/
inductive AllEncodable : Json φ → Prop where
  | null : AllEncodable .null
  | bool (b : Bool) : AllEncodable (.bool b)
  | int (i : ℤ) : AllEncodable (.int i)
  | float (x : φ) : AllEncodable (.float x)
  | str {s : PyStr} : s.Encodable → AllEncodable (.str s)
  | arr {items : List (Json φ)} : (∀ j ∈ items, AllEncodable j) → AllEncodable (.arr items)
  | obj {fields : List (PyStr × Json φ)} : (∀ f ∈ fields, f.1.Encodable) →
    (∀ f ∈ fields, AllEncodable f.2) → AllEncodable (.obj fields)

theorem AllEncodable.rawRenderAt {repr : φ → List Char} {j : Json φ} (h : AllEncodable j) :
    ∀ d, (rawRenderAt repr d j).Encodable := by
  have hlit := PyStr.encodable_ofList
  induction h with
  | null => exact fun d => hlit _
  | bool b => cases b <;> exact fun d => hlit _
  | int i => exact fun d => hlit _
  | float x => exact fun d => hlit _
  | str hs => exact fun d => rawQuote_encodable hs
  | @arr items _ ih =>
    have hrest : ∀ (d : ℕ) (items : List (Json φ)),
        (∀ j ∈ items, ∀ d, (Json.rawRenderAt repr d j).Encodable) →
          (rawItemsAt repr d items).Encodable := by
      intro d items ih
      induction items with
      | nil => exact hlit []
      | cons j items ih' =>
        exact (((hlit _).append (hlit _)).append (ih j List.mem_cons_self _)).append
          (ih' fun i hi => ih i (List.mem_cons_of_mem j hi))
    intro d
    cases items with
    | nil => exact hlit _
    | cons j items =>
      have hitems := hrest d items fun i hi => ih i (List.mem_cons_of_mem j hi)
      exact (((((hlit _).append (hlit _)).append (ih j List.mem_cons_self _)).append hitems).append
        (hlit _)).append (hlit _)
  | @obj fields hkeys _ ih =>
    have hrest : ∀ (d : ℕ) (fields : List (PyStr × Json φ)),
        (∀ f ∈ fields, f.1.Encodable ∧ ∀ d, (Json.rawRenderAt repr d f.2).Encodable) →
          (rawFieldsAt repr d fields).Encodable := by
      intro d fields ih
      induction fields with
      | nil => exact hlit []
      | cons f fields ih' =>
        obtain ⟨hk, hj⟩ := ih f List.mem_cons_self
        exact (((((hlit _).append (hlit _)).append (rawQuote_encodable hk)).append (hlit _)).append
          (hj _)).append (ih' fun g hg => ih g (List.mem_cons_of_mem f hg))
    intro d
    cases fields with
    | nil => exact hlit _
    | cons f fields =>
      have hk := hkeys f List.mem_cons_self
      have hfields := hrest d fields fun g hg =>
        ⟨hkeys g (List.mem_cons_of_mem f hg), ih g (List.mem_cons_of_mem f hg)⟩
      exact (((((((hlit _).append (hlit _)).append (rawQuote_encodable hk)).append (hlit _)).append
        (ih f List.mem_cons_self _)).append hfields).append (hlit _)).append (hlit _)

end Json

end Foundation
