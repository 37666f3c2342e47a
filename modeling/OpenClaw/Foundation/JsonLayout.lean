import OpenClaw.Foundation.JsonScan

/-!
# Texts with blanks in any layout

A layout says which blanks stand between the tokens of a value, by depth. Whatever they are, the
parser reads the value back, except that of the fields with one key the last one stays.
-/

namespace Foundation

set_option autoImplicit false

namespace Json
variable {φ : Type}

/-- The blanks behind an opening bracket, behind a comma, before a closing bracket and behind a
colon. -/
structure Layout where
  opening : ℕ → List Char
  between : ℕ → List Char
  closing : ℕ → List Char
  afterKey : List Char
  opening_space : ∀ d, ∀ c ∈ opening d, isSpace c = true
  between_space : ∀ d, ∀ c ∈ between d, isSpace c = true
  closing_space : ∀ d, ∀ c ∈ closing d, isSpace c = true
  key_space : ∀ c ∈ afterKey, isSpace c = true

/-- A line break and two blanks for every level. -/
def newlineIndent (d : ℕ) : List Char := '\n' :: List.replicate (2 * d) ' '

theorem newlineIndent_space (d : ℕ) : ∀ c ∈ newlineIndent d, isSpace c = true := by
  intro c hc
  rcases List.mem_cons.mp hc with rfl | hc
  · rfl
  · rw [List.eq_of_mem_replicate hc]
    rfl

namespace Layout

/-- One line, as without `indent`. -/
def flat (sep : Separators) : Layout where
  opening _ := []
  between _ := sep.afterItem
  closing _ := []
  afterKey := sep.afterKey
  opening_space _ _ h := by cases h
  between_space _ := sep.item_space
  closing_space _ _ h := by cases h
  key_space := sep.key_space

/-- `indent=2`. -/
def indented : Layout where
  opening d := newlineIndent (d + 1)
  between d := newlineIndent (d + 1)
  closing d := newlineIndent d
  afterKey := [' ']
  opening_space d := newlineIndent_space (d + 1)
  between_space d := newlineIndent_space (d + 1)
  closing_space d := newlineIndent_space d
  key_space := Separators.blank_isSpace

end Layout

section Render
variable (repr : φ → List Char) (L : Layout)

mutual

def renderAt : ℕ → Json φ → List Char
  | _, .null => ['n', 'u', 'l', 'l']
  | _, .bool true => ['t', 'r', 'u', 'e']
  | _, .bool false => ['f', 'a', 'l', 's', 'e']
  | _, .int i => showInt i
  | _, .float x => repr x
  | _, .str s => quote s
  | _, .arr [] => ['[', ']']
  | d, .arr (j :: items) =>
    '[' :: (L.opening d ++ (renderAt (d + 1) j ++ (renderItemsAt d items ++ (L.closing d ++ [']']))))
  | _, .obj [] => ['{', '}']
  | d, .obj ((k, j) :: fields) =>
    '{' :: (L.opening d ++ (quote k ++ (':' :: (L.afterKey ++ (renderAt (d + 1) j ++
      (renderFieldsAt d fields ++ (L.closing d ++ ['}'])))))))

def renderItemsAt : ℕ → List (Json φ) → List Char
  | _, [] => []
  | d, j :: items => ',' :: (L.between d ++ (renderAt (d + 1) j ++ renderItemsAt d items))

def renderFieldsAt : ℕ → List (PyStr × Json φ) → List Char
  | _, [] => []
  | d, (k, j) :: fields =>
    ',' :: (L.between d ++ (quote k ++ (':' :: (L.afterKey ++
      (renderAt (d + 1) j ++ renderFieldsAt d fields)))))

end

/-- `json.dumps(j, indent=2)`. -/
def dumpsIndent (j : Json φ) : List Char := renderAt repr Layout.indented 0 j

end Render

/-! ## Repeated keys -/

mutual

/-- The value with one field for each key, as a dictionary keeps them. -/
def collapse : Json φ → Json φ
  | .null => .null
  | .bool b => .bool b
  | .int i => .int i
  | .float x => .float x
  | .str s => .str s
  | .arr items => .arr (collapseItems items)
  | .obj fields => .obj (dict (collapseFields fields))

def collapseItems : List (Json φ) → List (Json φ)
  | [] => []
  | j :: items => collapse j :: collapseItems items

def collapseFields : List (PyStr × Json φ) → List (PyStr × Json φ)
  | [] => []
  | (k, j) :: fields => (k, collapse j) :: collapseFields fields

end

/-- The field with its value collapsed. -/
def collapseField (f : PyStr × Json φ) : PyStr × Json φ := (f.1, f.2.collapse)

theorem collapseItems_eq (items : List (Json φ)) : collapseItems items = items.map collapse := by
  induction items with
  | nil => rfl
  | cons j items ih => rw [collapseItems, ih, List.map_cons]

theorem collapseFields_eq (fields : List (PyStr × Json φ)) :
    collapseFields fields = fields.map collapseField := by
  induction fields with
  | nil => rfl
  | cons f fields ih =>
    obtain ⟨k, j⟩ := f
    rw [collapseFields, ih, List.map_cons]
    rfl

/-! ## Reading -/

theorem skipSpace_of_head {c : Char} {cs : List Char} (h : isSpace c = false) :
    skipSpace (c :: cs) = c :: cs := by
  simp [skipSpace, h]

theorem skipSpace_blanks {sp : List Char} (hsp : ∀ c ∈ sp, isSpace c = true) (cs : List Char) :
    skipSpace (sp ++ cs) = skipSpace cs := by
  induction sp with
  | nil => rfl
  | cons c sp ih =>
    have hc : isSpace c = true := hsp c List.mem_cons_self
    rw [skipSpace, List.cons_append, List.dropWhile_cons_of_pos hc]
    exact ih fun c' h => hsp c' (List.mem_cons_of_mem c h)

/-- Blanks do not go on with a number. -/
theorem follow_blanks {sp cs : List Char} (hsp : ∀ c ∈ sp, isSpace c = true) (h : Follow cs) :
    Follow (sp ++ cs) := by
  cases sp with
  | nil => exact h
  | cons c sp =>
    apply follow_cons
    have hc := hsp c List.mem_cons_self
    simp only [isSpace, Bool.or_eq_true, decide_eq_true_eq] at hc
    rcases hc with ((rfl | rfl) | rfl) | rfl <;> decide

section Format
variable (F : FloatFormat φ) (L : Layout)

/-- Every value starts with a character that is neither blank nor a closing bracket. -/
theorem renderAt_head (d : ℕ) (j : Json φ) :
    ∃ c cs, renderAt F.repr L d j = c :: cs ∧ Starts c := by
  match j with
  | .null => exact ⟨'n', _, by rw [renderAt], Or.inr (by decide)⟩
  | .bool true => exact ⟨'t', _, by rw [renderAt], Or.inr (by decide)⟩
  | .bool false => exact ⟨'f', _, by rw [renderAt], Or.inr (by decide)⟩
  | .int i =>
    obtain ⟨c, cs, h, hc⟩ := scanNumber_head (scanNumber_showInt i)
    exact ⟨c, cs, by rw [renderAt, h], hc⟩
  | .float x =>
    obtain ⟨c, cs, h, hc⟩ := repr_head F x
    exact ⟨c, cs, by rw [renderAt, h], hc⟩
  | .str s => exact ⟨'"', _, by rw [renderAt]; rfl, Or.inr (by decide)⟩
  | .arr [] => exact ⟨'[', _, by rw [renderAt], Or.inr (by decide)⟩
  | .arr (j :: items) => exact ⟨'[', _, by rw [renderAt], Or.inr (by decide)⟩
  | .obj [] => exact ⟨'{', _, by rw [renderAt], Or.inr (by decide)⟩
  | .obj ((k, j) :: fields) => exact ⟨'{', _, by rw [renderAt], Or.inr (by decide)⟩

theorem skipSpace_renderAt (d : ℕ) (j : Json φ) (rest : List Char) :
    skipSpace (renderAt F.repr L d j ++ rest) = renderAt F.repr L d j ++ rest := by
  obtain ⟨c, cs, h, hc⟩ := renderAt_head F L d j
  rw [h]
  exact skipSpace_of_head hc.facts.1

/-- The text of `j` is read, whatever follows, as soon as the fuel is twice its length. -/
def ReadsAt (j : Json φ) : Prop :=
  ∀ d n rest, Follow rest → 2 * (renderAt F.repr L d j).length ≤ n →
    parseValue F.read n (renderAt F.repr L d j ++ rest) = some (j.collapse, rest)

variable {F L}

theorem follow_items (d : ℕ) (items : List (Json φ)) (rest : List Char) :
    Follow (renderItemsAt F.repr L d items ++ (L.closing d ++ ']' :: rest)) := by
  cases items with
  | nil =>
    rw [renderItemsAt, List.nil_append]
    exact follow_blanks (L.closing_space d) (follow_cons (by decide) _)
  | cons j items =>
    rw [renderItemsAt]
    exact follow_cons (by decide) _

theorem follow_fields (d : ℕ) (fields : List (PyStr × Json φ)) (rest : List Char) :
    Follow (renderFieldsAt F.repr L d fields ++ (L.closing d ++ '}' :: rest)) := by
  cases fields with
  | nil =>
    rw [renderFieldsAt, List.nil_append]
    exact follow_blanks (L.closing_space d) (follow_cons (by decide) _)
  | cons f fields =>
    rw [renderFieldsAt]
    exact follow_cons (by decide) _

/-- The loop over the items of an array, by induction on the items. -/
theorem parseItems_renderAt {d : ℕ} {j : Json φ} {items : List (Json φ)} (hj : ReadsAt F L j)
    (hitems : ∀ i ∈ items, ReadsAt F L i) (rest : List Char) {n : ℕ}
    (hn : 2 * ((renderAt F.repr L (d + 1) j).length + (renderItemsAt F.repr L d items).length) + 1 ≤
      n) :
    parseItems F.read n (renderAt F.repr L (d + 1) j ++ (renderItemsAt F.repr L d items ++
      (L.closing d ++ ']' :: rest))) = some ((j :: items).map collapse, rest) := by
  induction items generalizing j n with
  | nil =>
    obtain ⟨m, rfl⟩ : ∃ m, n = m + 1 := ⟨n - 1, by omega⟩
    rw [parseItems, hj (d + 1) m _ (follow_items d [] rest) (by omega), renderItemsAt,
      List.nil_append]
    simp only
    rw [skipSpace_blanks (L.closing_space d)]
    simp [skipSpace_of_head (show isSpace ']' = false by decide)]
  | cons i items ih =>
    obtain ⟨m, rfl⟩ : ∃ m, n = m + 1 := ⟨n - 1, by omega⟩
    have hlen : (renderItemsAt F.repr L d (i :: items)).length = (L.between d).length + 1 +
        ((renderAt F.repr L (d + 1) i).length + (renderItemsAt F.repr L d items).length) := by
      simp only [renderItemsAt, List.length_append, List.length_cons]
      omega
    rw [hlen] at hn
    have hrec := ih (hitems i List.mem_cons_self)
      (fun i' h => hitems i' (List.mem_cons_of_mem i h)) (n := m) (by omega)
    rw [parseItems, hj (d + 1) m _ (follow_items d (i :: items) rest) (by omega)]
    simp only [renderItemsAt, List.cons_append, List.append_assoc,
      skipSpace_of_head (show isSpace ',' = false by decide), if_true]
    rw [skipSpace_blanks (L.between_space d), skipSpace_renderAt, hrec]
    rfl

/-- The loop over the fields of an object. -/
theorem parseFields_renderAt {d : ℕ} {k : PyStr} {j : Json φ} {fields : List (PyStr × Json φ)}
    (hj : ReadsAt F L j) (hfields : ∀ f ∈ fields, ReadsAt F L f.2) (rest : List Char) {n : ℕ}
    (hn : 2 * ((renderAt F.repr L (d + 1) j).length + (renderFieldsAt F.repr L d fields).length) +
      1 ≤ n) :
    parseFields F.read n (quote k ++ (':' :: (L.afterKey ++ (renderAt F.repr L (d + 1) j ++
      (renderFieldsAt F.repr L d fields ++ (L.closing d ++ '}' :: rest)))))) =
        some (((k, j) :: fields).map collapseField, rest) := by
  have hkey (k : PyStr) (cs : List Char) :
      (stripPrefix ['"'] (quote k ++ cs)).bind scanString = some (k, cs) := by
    simp only [quote, List.cons_append, List.append_assoc, stripPrefix, if_true,
      Option.bind_some]
    exact scanString_quoted k cs
  induction fields generalizing k j n with
  | nil =>
    obtain ⟨m, rfl⟩ : ∃ m, n = m + 1 := ⟨n - 1, by omega⟩
    have hval := hj (d + 1) m (renderFieldsAt F.repr L d [] ++ (L.closing d ++ '}' :: rest))
      (follow_fields d [] rest) (by omega)
    rw [parseFields, hkey]
    simp only [skipSpace_of_head (show isSpace ':' = false by decide), stripPrefix, if_true,
      Option.bind_some]
    rw [skipSpace_blanks L.key_space, skipSpace_renderAt, hval, renderFieldsAt, List.nil_append]
    simp only
    rw [skipSpace_blanks (L.closing_space d)]
    simp [skipSpace_of_head (show isSpace '}' = false by decide), collapseField]
  | cons f fields ih =>
    obtain ⟨k', j'⟩ := f
    obtain ⟨m, rfl⟩ : ∃ m, n = m + 1 := ⟨n - 1, by omega⟩
    have hlen : (renderAt F.repr L (d + 1) j').length + (renderFieldsAt F.repr L d fields).length +
        1 ≤ (renderFieldsAt F.repr L d ((k', j') :: fields)).length := by
      simp only [renderFieldsAt, List.length_append, List.length_cons]
      omega
    have hval := hj (d + 1) m (renderFieldsAt F.repr L d ((k', j') :: fields) ++
      (L.closing d ++ '}' :: rest)) (follow_fields d _ rest) (by omega)
    have hrec := ih (k := k') (j := j') (hfields (k', j') List.mem_cons_self)
      (fun f h => hfields f (List.mem_cons_of_mem _ h)) (n := m) (by omega)
    rw [parseFields, hkey]
    simp only [skipSpace_of_head (show isSpace ':' = false by decide), stripPrefix, if_true,
      Option.bind_some]
    rw [skipSpace_blanks L.key_space, skipSpace_renderAt, hval]
    simp only [renderFieldsAt, List.cons_append, List.append_assoc,
      skipSpace_of_head (show isSpace ',' = false by decide), if_true]
    have hquote (cs : List Char) : skipSpace (quote k' ++ cs) = quote k' ++ cs :=
      skipSpace_of_head (by decide)
    rw [skipSpace_blanks (L.between_space d), hquote, hrec]
    rfl

/-- Values that are neither strings nor containers. -/
theorem reads_scalar {j : Json φ} (hj : j.collapse = j)
    (hd : ∀ d c cs, renderAt F.repr L d j = c :: cs → c ≠ '"' ∧ c ≠ '[' ∧ c ≠ '{')
    (hp : ∀ d rest, Follow rest →
      parseScalar F.read (renderAt F.repr L d j ++ rest) = some (j, rest)) : ReadsAt F L j := by
  intro d n rest hr hn
  obtain ⟨c, cs, h, _⟩ := renderAt_head F L d j
  have hp' := hp d rest hr
  obtain ⟨h1, h2, h3⟩ := hd d c cs h
  rw [h, List.cons_append] at hp' ⊢
  rw [h, List.length_cons] at hn
  obtain ⟨m, rfl⟩ : ∃ m, n = m + 1 := ⟨n - 1, by omega⟩
  rw [parseValue, if_neg h1, if_neg h2, if_neg h3, hp', hj]

theorem number_head {x : List Char} {r : List Char × List Char × List Char}
    (h : scanNumber x = some r) {c : Char} {cs : List Char} (hx : x = c :: cs) :
    c ≠ '"' ∧ c ≠ '[' ∧ c ≠ '{' := by
  have hc : c.isDigit = true ∨ c = '-' := by
    rcases scanNumber_starts h with ⟨c', cs', he, hd⟩ | ⟨c', cs', he, _⟩
    · cases hx.symm.trans he
      exact Or.inl hd
    · cases hx.symm.trans he
      exact Or.inr rfl
  rcases hc with hd | rfl
  · refine ⟨?_, ?_, ?_⟩ <;>
    · rintro rfl
      cases hd
  · decide

variable (F L)

/-- The parser reads what was written, in any layout; the induction is on the value. -/
theorem reads_at (j : Json φ) : ReadsAt F L j := by
  induction j using Json.induction with
  | null =>
    apply reads_scalar (by rw [collapse])
    · intro d c cs h
      rw [renderAt] at h
      cases h
      decide
    · intro d rest _
      rw [renderAt]
      exact parseScalar_null F.read rest
  | bool b =>
    cases b <;> apply reads_scalar (by rw [collapse])
    · intro d c cs h
      rw [renderAt] at h
      cases h
      decide
    · intro d rest _
      rw [renderAt]
      exact parseScalar_false F.read rest
    · intro d c cs h
      rw [renderAt] at h
      cases h
      decide
    · intro d rest _
      rw [renderAt]
      exact parseScalar_true F.read rest
  | int i =>
    apply reads_scalar (by rw [collapse])
    · intro d c cs h
      rw [renderAt] at h
      exact number_head (scanNumber_showInt i) h
    · intro d rest hr
      rw [renderAt]
      exact parseScalar_int F i hr
  | float x =>
    apply reads_scalar (by rw [collapse])
    · intro d c cs h
      rw [renderAt] at h
      rcases F.literal x with hw | ⟨int, frac, hs, _⟩
      · rw [h] at hw
        simp only [List.mem_cons, List.not_mem_nil, or_false, nan, infinity, minusInfinity,
          List.cons.injEq] at hw
        rcases hw with ⟨rfl, _⟩ | ⟨rfl, _⟩ | ⟨rfl, _⟩ <;> decide
      · exact number_head hs h
    · intro d rest hr
      rw [renderAt]
      exact parseScalar_float F x hr
  | str s =>
    intro d n rest _ hn
    rw [renderAt, quote, List.cons_append, List.length_cons] at hn
    obtain ⟨m, rfl⟩ : ∃ m, n = m + 1 := ⟨n - 1, by omega⟩
    rw [renderAt, quote, List.cons_append, List.cons_append, parseValue, if_pos rfl,
      List.append_assoc, List.singleton_append, scanString_quoted, collapse]
    rfl
  | arr items ih =>
    intro d n rest _ hn
    cases items with
    | nil =>
      rw [renderAt] at hn ⊢
      obtain ⟨m, rfl⟩ : ∃ m, n = m + 1 := ⟨n - 1, by simp at hn; omega⟩
      simp [parseValue, skipSpace_of_head (show isSpace ']' = false by decide), stripPrefix,
        collapse, collapseItems]
    | cons j items =>
      rw [renderAt] at hn ⊢
      simp only [List.length_cons, List.length_append, List.length_nil] at hn
      obtain ⟨m, rfl⟩ : ∃ m, n = m + 1 := ⟨n - 1, by omega⟩
      have hitems := parseItems_renderAt (d := d) (ih j List.mem_cons_self)
        (fun i h => ih i (List.mem_cons_of_mem j h)) rest (n := m) (by omega)
      obtain ⟨c, cs, hc, hs⟩ := renderAt_head F L (d + 1) j
      have hnil : stripPrefix [']'] (renderAt F.repr L (d + 1) j ++
          (renderItemsAt F.repr L d items ++ (L.closing d ++ ']' :: rest))) = none := by
        simp [hc, stripPrefix, hs.facts.2.1.symm]
      rw [List.cons_append, parseValue, if_neg (by decide), if_pos rfl]
      simp only [List.append_assoc, List.singleton_append]
      rw [skipSpace_blanks (L.opening_space d), skipSpace_renderAt, hnil, hitems, collapse,
        collapseItems_eq]
      rfl
  | obj fields ih =>
    intro d n rest _ hn
    cases fields with
    | nil =>
      rw [renderAt] at hn ⊢
      obtain ⟨m, rfl⟩ : ∃ m, n = m + 1 := ⟨n - 1, by simp at hn; omega⟩
      simp [parseValue, skipSpace_of_head (show isSpace '}' = false by decide), stripPrefix,
        collapse, collapseFields, dict, Table.ofRows, Table.empty]
    | cons f fields =>
      obtain ⟨k, j⟩ := f
      rw [renderAt] at hn ⊢
      simp only [List.length_cons, List.length_append, List.length_nil] at hn
      obtain ⟨m, rfl⟩ : ∃ m, n = m + 1 := ⟨n - 1, by omega⟩
      have hfields := parseFields_renderAt (k := k) (j := j) (d := d) (ih (k, j) List.mem_cons_self)
        (fun f h => ih f (List.mem_cons_of_mem _ h)) rest (n := m) (by omega)
      have hquote (cs : List Char) : skipSpace (quote k ++ cs) = quote k ++ cs :=
        skipSpace_of_head (by decide)
      have hnil (cs : List Char) : stripPrefix ['}'] (quote k ++ cs) = none := by
        simp [quote, stripPrefix]
      rw [List.cons_append, parseValue, if_neg (by decide), if_neg (by decide), if_pos rfl]
      simp only [List.append_assoc, List.cons_append, List.nil_append]
      rw [skipSpace_blanks (L.opening_space d), hquote, hnil, hfields, collapse,
        collapseFields_eq]
      rfl

/-- `json.loads` of a text in any layout, with blanks behind it: the value with its repeated keys
collapsed. -/
theorem loads_renderAt_blanks (j : Json φ) {sp : List Char} (hsp : ∀ c ∈ sp, isSpace c = true) :
    loads F.read (renderAt F.repr L 0 j ++ sp) = some j.collapse := by
  have hfollow : Follow sp := by
    rw [← List.append_nil sp]
    exact follow_blanks hsp follow_nil
  have hblank : skipSpace sp = [] := by
    rw [← List.append_nil sp, skipSpace_blanks hsp]
    rfl
  have h := reads_at F L j 0 (2 * (renderAt F.repr L 0 j ++ sp).length + 2) sp hfollow
    (by rw [List.length_append]; omega)
  unfold loads
  rw [skipSpace_renderAt, h]
  exact if_pos hblank

theorem loads_renderAt (j : Json φ) : loads F.read (renderAt F.repr L 0 j) = some j.collapse := by
  have h := @loads_renderAt_blanks _ F L j [] (by simp)
  rwa [List.append_nil] at h

/-- `json.loads(json.dumps(j, indent=2))`. -/
theorem loads_dumpsIndent (j : Json φ) : loads F.read (dumpsIndent F.repr j) = some j.collapse :=
  loads_renderAt F Layout.indented j

end Format

end Json

end Foundation
