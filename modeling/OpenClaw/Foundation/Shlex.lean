import Mathlib.Data.List.Infix
import Mathlib.Tactic.Common

/-!
# The words of a command line

A text as a shell lexer splits it: blanks and comments stand between the words, the quoting sign
takes blanks into a word, and the escape sign takes the next sign as it is. Pieces written one
behind the other are read back if and only if none of them needs more quoting than it has.
-/

namespace Foundation.Shlex

set_option autoImplicit false

structure Signs (α : Type) where
  blank : α → Bool
  comment : α → Bool
  space : α
  newline : α
  quote : α
  escape : α
  space_blank : blank space = true
  quote_inner : (blank quote || comment quote) = false
  escape_comment : comment escape = false

inductive LexError where
  /-- No closing quotation -/
  | quotation
  /-- No escaped character -/
  | escaped
  deriving DecidableEq

/-- What the word that is read has to go on with. -/
inductive Mode where
  | word
  | quoted
  | escape
  | quotedEscape
  deriving DecidableEq

section Lexer
variable {α : Type} [DecidableEq α] (s : Signs α)

/-- What no word goes on over outside the quotes. -/
def Signs.ends (c : α) : Bool := s.blank c || s.comment c

/-- The mode after a sign of a word, and what the sign adds to the word. -/
def step : Mode → α → Mode × List α
  | .word, c =>
    if c = s.quote then (.quoted, []) else if c = s.escape then (.escape, []) else (.word, [c])
  | .quoted, c =>
    if c = s.quote then (.word, []) else if c = s.escape then (.quotedEscape, [])
    else (.quoted, [c])
  | .escape, c => (.word, [c])
  | .quotedEscape, c =>
    (.quoted, if c = s.quote ∨ c = s.escape then [c] else [s.escape, c])

/-- A word from a mode on. What ends the word is left in front of the rest, where it is passed over
before the next word. -/
def readWord : Mode → List α → Except LexError (List α × List α)
  | .word, [] => .ok ([], [])
  | .quoted, [] => .error .quotation
  | .escape, [] => .error .escaped
  | .quotedEscape, [] => .error .escaped
  | m, c :: t =>
    if m = .word ∧ s.ends c then .ok ([], c :: t)
    else (readWord (step s m c).1 t).map fun r => ((step s m c).2 ++ r.1, r.2)

/-- The blanks and the comments in front of a word; `true` is within a comment. -/
def skip : Bool → List α → List α
  | _, [] => []
  | true, c :: t => skip (c ≠ s.newline) t
  | false, c :: t => if s.blank c then skip false t else if s.comment c then skip true t else c :: t

def words : ℕ → List α → Except LexError (List (List α))
  | 0, _ => .ok []
  | n + 1, t =>
    match skip s false t with
    | [] => .ok []
    | c :: u => do
      let found ← readWord s .word (c :: u)
      let more ← words n found.2
      .ok (found.1 :: more)

/-- `list(lexer)`. -/
def split (t : List α) : Except LexError (List (List α)) := words s (t.length + 1) t

/-- Nothing is at the front, or what no word goes on over. -/
def Boundary (t : List α) : Prop := ∀ c ∈ t.head?, s.ends c = true

def Signs.plain (c : α) : Bool := !s.ends c && decide (c ≠ s.quote ∧ c ≠ s.escape)

/-- What stands between two quotes for itself. -/
def Signs.quotable : List α → Bool
  | [] => true
  | c :: t =>
    decide (c ≠ s.quote) &&
      (decide (c ≠ s.escape) || t.head?.any fun d => decide (d ≠ s.quote ∧ d ≠ s.escape)) &&
      Signs.quotable t

/-! ## One word -/

variable {s} {m : Mode} {t w rest : List α}

theorem readWord_cons {c : α} (h : readWord s m (c :: t) = .ok (w, rest)) :
    (m = .word ∧ s.ends c = true ∧ w = [] ∧ rest = c :: t) ∨
      (¬(m = .word ∧ s.ends c = true) ∧ ∃ v, readWord s (step s m c).1 t = .ok (v, rest) ∧
        w = (step s m c).2 ++ v) := by
  rw [readWord] at h
  split at h
  · rename_i hend
    cases h
    exact .inl ⟨hend.1, hend.2, rfl, rfl⟩
  · rename_i hend
    cases hr : readWord s (step s m c).1 t with
    | error e =>
      rw [hr] at h
      cases h
    | ok r =>
      rw [hr] at h
      cases h
      exact .inr ⟨hend, r.1, rfl, rfl⟩

theorem readWord_suffix (h : readWord s m t = .ok (w, rest)) : rest <:+ t := by
  induction t generalizing m w with
  | nil =>
    cases m <;> cases h
    exact List.suffix_rfl
  | cons c t ih =>
    rcases readWord_cons h with ⟨_, _, _, rfl⟩ | ⟨_, v, hv, _⟩
    · exact List.suffix_rfl
    · exact (ih hv).trans (List.suffix_cons c t)

theorem readWord_boundary (h : readWord s m t = .ok (w, rest)) : Boundary s rest := by
  induction t generalizing m w with
  | nil =>
    cases m <;> cases h
    intro c hc
    cases hc
  | cons c t ih =>
    rcases readWord_cons h with ⟨_, hend, _, rfl⟩ | ⟨_, v, hv, _⟩
    · intro d hd
      cases hd
      exact hend
    · exact ih hv

/-- The quote that is still to come. -/
def debt : Mode → ℕ
  | .quoted => 1
  | _ => 0

theorem step_debt (m : Mode) (c : α) : (step s m c).2.length + debt m ≤ 1 + debt (step s m c).1 := by
  cases m with
  | word | quoted =>
    rw [step]
    split
    · simp [debt]
    · split <;> simp [debt]
  | escape => simp [step, debt]
  | quotedEscape =>
    rw [step]
    split <;> simp [debt]

/-- A word is no longer than what it was read from, and shorter by its signs. -/
theorem readWord_length (h : readWord s m t = .ok (w, rest)) :
    w.length + rest.length + debt m ≤ t.length := by
  induction t generalizing m w with
  | nil =>
    cases m <;> cases h
    exact Nat.le_refl 0
  | cons c t ih =>
    rcases readWord_cons h with ⟨rfl, _, rfl, rfl⟩ | ⟨_, v, hv, rfl⟩
    · simp [debt]
    · have hrest := ih hv
      have hstep := step_debt (s := s) m c
      rw [List.length_append, List.length_cons]
      omega

theorem Signs.plain_inner {c : α} (h : s.plain c = true) : s.ends c = false := by
  rw [Signs.plain, Bool.and_eq_true] at h
  simpa using h.1

/-- What a word that was read without a spare sign looked like. -/
def Exact (s : Signs α) (w rest : List α) : Mode → List α → Prop
  | .word, t => t = w ++ rest ∧ w.all s.plain = true
  | .quoted, t => ∃ v u, t = v ++ s.quote :: (u ++ rest) ∧ w = v ++ u ∧ s.quotable v = true ∧
      u.all s.plain = true
  | .escape, _ => True
  | .quotedEscape, t => ∃ c v u, t = c :: (v ++ s.quote :: (u ++ rest)) ∧
      w = s.escape :: c :: (v ++ u) ∧ (c ≠ s.quote ∧ c ≠ s.escape) ∧ s.quotable v = true ∧
      u.all s.plain = true

theorem readWord_exact (h : readWord s m t = .ok (w, rest))
    (hlen : w.length + rest.length + debt m = t.length) : Exact s w rest m t := by
  induction t generalizing m w with
  | nil =>
    cases m <;> cases h
    exact ⟨rfl, rfl⟩
  | cons c t ih =>
    rcases readWord_cons h with ⟨rfl, _, rfl, rfl⟩ | ⟨hend, v, hv, rfl⟩
    · exact ⟨rfl, rfl⟩
    have hle := readWord_length hv
    rw [List.length_append, List.length_cons] at hlen
    cases m with
    | escape => trivial
    | word =>
      rw [step] at hv hlen hle ⊢
      split at hlen
      · rename_i hq
        rw [if_pos hq] at hle
        simp only [debt, List.length_nil] at hle hlen
        omega
      · rename_i hq
        rw [if_neg hq] at hv hle ⊢
        split at hlen
        · rename_i he
          rw [if_pos he] at hle
          simp only [debt, List.length_nil] at hle hlen
          omega
        · rename_i he
          rw [if_neg he] at hv ⊢
          obtain ⟨rfl, hplain⟩ := ih hv (by simp only [debt, List.length_singleton] at hlen ⊢; omega)
          refine ⟨rfl, ?_⟩
          have hc : s.ends c = false := by simpa using hend
          simp [Signs.plain, hc, hq, he, hplain]
    | quoted =>
      rw [step] at hv hlen ⊢
      split at hlen
      · rename_i hq
        rw [if_pos hq] at hv ⊢
        obtain ⟨rfl, hplain⟩ := ih hv (by simp only [debt, List.length_nil] at hlen ⊢; omega)
        exact ⟨[], v, by rw [hq]; rfl, rfl, rfl, hplain⟩
      · rename_i hq
        rw [if_neg hq] at hv ⊢
        split at hlen
        · rename_i he
          rw [if_pos he] at hv ⊢
          obtain ⟨d, x, u, rfl, rfl, hd, hx, hu⟩ :=
            ih hv (by simp only [debt, List.length_nil] at hlen ⊢; omega)
          refine ⟨c :: d :: x, u, rfl, by rw [he]; rfl, ?_, hu⟩
          simp [Signs.quotable, hq, hd, hx]
        · rename_i he
          rw [if_neg he] at hv ⊢
          obtain ⟨x, u, rfl, rfl, hx, hu⟩ :=
            ih hv (by simp only [debt, List.length_singleton] at hlen ⊢; omega)
          exact ⟨c :: x, u, rfl, rfl, by simp [Signs.quotable, hq, he, hx], hu⟩
    | quotedEscape =>
      rw [step] at hv hlen ⊢
      split at hlen
      · have hquoted : v.length + rest.length + 1 ≤ t.length := hle
        simp only [debt, List.length_singleton] at hlen
        omega
      · rename_i hc
        rw [if_neg hc]
        obtain ⟨x, u, rfl, rfl, hx, hu⟩ :=
          ih hv (by simp only [debt, List.length_cons, List.length_nil] at hlen ⊢; omega)
        rw [not_or] at hc
        exact ⟨c, x, u, rfl, rfl, hc, hx, hu⟩

theorem readWord_of_boundary (hrest : Boundary s rest) : readWord s .word rest = .ok ([], rest) := by
  cases rest with
  | nil => rfl
  | cons c t => rw [readWord, if_pos ⟨rfl, hrest c rfl⟩]

theorem readWord_plain_append (hw : w.all s.plain = true) :
    readWord s .word (w ++ t) = (readWord s .word t).map fun r => (w ++ r.1, r.2) := by
  induction w with
  | nil =>
    rw [List.nil_append]
    cases readWord s .word t <;> rfl
  | cons c w ih =>
    rw [List.all_cons, Bool.and_eq_true] at hw
    obtain ⟨hend, hq, he⟩ : s.ends c = false ∧ c ≠ s.quote ∧ c ≠ s.escape := by
      simpa [Signs.plain] using hw.1
    rw [List.cons_append, readWord, if_neg (by simp [hend]), step, if_neg hq, if_neg he, ih hw.2]
    cases readWord s .word t <;> rfl

theorem readWord_plain {u : List α} (hw : w.all s.plain = true)
    (h : readWord s .word t = .ok (u, rest)) : readWord s .word (w ++ t) = .ok (w ++ u, rest) := by
  rw [readWord_plain_append hw, h]
  rfl

/-- An escape sign within quotes stands for itself in front of an ordinary sign. -/
theorem readWord_quotedEscape {c : α} {u : List α} (hc : c ≠ s.quote ∧ c ≠ s.escape)
    (h : readWord s .quoted (c :: t) = .ok (u, rest)) :
    readWord s .quotedEscape (c :: t) = .ok (s.escape :: u, rest) := by
  rcases readWord_cons h with ⟨hm, _⟩ | ⟨_, v, hv, rfl⟩
  · cases hm
  · rw [step, if_neg hc.1, if_neg hc.2] at hv ⊢
    rw [readWord, if_neg (by simp), step, if_neg (by simpa using hc), hv]
    rfl

theorem readWord_quotable {v u : List α} (hv : s.quotable v = true)
    (h : readWord s .word t = .ok (u, rest)) :
    readWord s .quoted (v ++ s.quote :: t) = .ok (v ++ u, rest) := by
  induction v with
  | nil =>
    rw [List.nil_append, readWord, if_neg (by simp), step, if_pos rfl, h]
    rfl
  | cons c v ih =>
    rw [Signs.quotable, Bool.and_eq_true, Bool.and_eq_true, Bool.or_eq_true] at hv
    obtain ⟨⟨hq, he⟩, hv⟩ := hv
    have hrest := ih hv
    rw [List.cons_append, readWord, if_neg (by simp), step, if_neg (of_decide_eq_true hq)]
    split
    · rename_i hesc
      have hhead : v.head?.any (fun d => decide (d ≠ s.quote ∧ d ≠ s.escape)) = true := by
        rcases he with he | he
        · exact absurd hesc (of_decide_eq_true he)
        · exact he
      cases v with
      | nil => cases hhead
      | cons d v =>
        have hread : readWord s .quotedEscape (d :: v ++ s.quote :: t) =
            .ok (s.escape :: (d :: v ++ u), rest) :=
          readWord_quotedEscape (of_decide_eq_true hhead) hrest
        rw [hread, hesc]
        rfl
    · rw [hrest]
      rfl

/-- A front without quotes and escapes stands in the word as it is, if the word is long enough. -/
theorem readWord_front {f : List α} (hf : ∀ c ∈ f, c ≠ s.quote ∧ c ≠ s.escape)
    (h : readWord s .word (f ++ t) = .ok (w, rest)) (hlen : f.length ≤ w.length) :
    f.all s.plain = true ∧ ∃ v, w = f ++ v ∧ readWord s .word t = .ok (v, rest) := by
  induction f generalizing w with
  | nil => exact ⟨rfl, w, rfl, h⟩
  | cons c f ih =>
    rcases readWord_cons h with ⟨_, _, rfl, _⟩ | ⟨hend, v, hv, rfl⟩
    · simp at hlen
    · obtain ⟨hq, he⟩ := hf c List.mem_cons_self
      rw [step, if_neg hq, if_neg he] at hv hlen ⊢
      obtain ⟨hplain, x, rfl, hx⟩ := ih (fun d hd => hf d (List.mem_cons_of_mem c hd)) hv
        (Nat.le_of_succ_le_succ hlen)
      have hc : s.ends c = false := by simpa using hend
      exact ⟨by simp [Signs.plain, hc, hq, he, hplain], x, rfl, hx⟩

/-! ## Between the words -/

theorem skip_suffix (b : Bool) (t : List α) : skip s b t <:+ t := by
  induction t generalizing b with
  | nil => cases b <;> exact List.suffix_rfl
  | cons c t ih =>
    cases b with
    | true => exact (ih _).trans (List.suffix_cons c t)
    | false =>
      rw [skip]
      split
      · exact (ih _).trans (List.suffix_cons c t)
      · split
        · exact (ih _).trans (List.suffix_cons c t)
        · exact List.suffix_rfl

theorem skip_inner {b : Bool} {c : α} {u : List α} (h : skip s b t = c :: u) :
    s.ends c = false := by
  induction t generalizing b with
  | nil => cases b <;> cases h
  | cons d t ih =>
    cases b with
    | true => exact ih h
    | false =>
      rw [skip] at h
      split at h
      · exact ih h
      · rename_i hblank
        split at h
        · exact ih h
        · rename_i hcomment
          cases h
          simp [Signs.ends, hblank, hcomment]

theorem skip_self {c : α} {u : List α} (hc : s.ends c = false) :
    skip s false (c :: u) = c :: u := by
  rw [Signs.ends, Bool.or_eq_false_iff] at hc
  rw [skip, if_neg (by simp [hc.1]), if_neg (by simp [hc.2])]

theorem skip_space : skip s false (s.space :: t) = skip s false t := by
  rw [skip, if_pos s.space_blank]

/-- At a boundary at least the first sign is passed over. -/
theorem skip_lt {c : α} {u : List α} (hc : s.ends c = true) :
    (skip s false (c :: u)).length ≤ u.length := by
  rw [Signs.ends, Bool.or_eq_true] at hc
  rw [skip]
  split
  · exact (skip_suffix _ _).length_le
  · rename_i hblank
    rw [if_pos (hc.resolve_left hblank)]
    exact (skip_suffix _ _).length_le

/-! ## All the words -/

theorem readWord_rest_le {c : α} {u : List α} (hc : s.ends c = false)
    (h : readWord s .word (c :: u) = .ok (w, rest)) : rest.length ≤ u.length := by
  rcases readWord_cons h with ⟨_, hend, _⟩ | ⟨_, v, hv, _⟩
  · rw [hc] at hend
    cases hend
  · exact (readWord_suffix hv).length_le

theorem map_eq_ok {ε β γ : Type} {f : β → γ} {x : Except ε β} {z : γ} (h : x.map f = .ok z) :
    ∃ y, x = .ok y ∧ f y = z := by
  cases x with
  | error e => cases h
  | ok y =>
    cases h
    exact ⟨y, rfl, rfl⟩

theorem words_fuel {n k : ℕ} (hn : t.length < n) (hk : t.length < k) : words s n t = words s k t := by
  induction n generalizing t k with
  | zero => omega
  | succ n ih =>
    cases k with
    | zero => omega
    | succ k =>
      rw [words, words]
      split
      · rfl
      · rename_i c u hskip
        have hlen := (skip_suffix (s := s) false t).length_le
        rw [hskip, List.length_cons] at hlen
        cases hr : readWord s .word (c :: u) with
        | error e => rfl
        | ok r =>
          have hrest : r.2.length ≤ u.length := readWord_rest_le (skip_inner hskip) hr
          change (do let more ← words s n r.2; _) = (do let more ← words s k r.2; _)
          rw [ih (t := r.2) (k := k) (by omega) (by omega)]

theorem split_of_skip_nil (h : skip s false t = []) : split s t = .ok [] := by
  rw [split, words, h]

theorem split_of_skip {c : α} {u : List α} (h : skip s false t = c :: u)
    (hr : readWord s .word (c :: u) = .ok (w, rest)) :
    split s t = (split s rest).map fun more => w :: more := by
  have hlen := (skip_suffix (s := s) false t).length_le
  rw [h, List.length_cons] at hlen
  have hrest := readWord_rest_le (skip_inner h) hr
  rw [split, words, h]
  simp only [hr, bind, Except.bind]
  rw [words_fuel (k := rest.length + 1) (by omega) (by omega), split]
  cases words s (rest.length + 1) rest <;> rfl

theorem split_eq_cons {ws : List (List α)} : split s t = .ok (w :: ws) ↔
    ∃ rest, skip s false t ≠ [] ∧ readWord s .word (skip s false t) = .ok (w, rest) ∧
      split s rest = .ok ws := by
  constructor
  · intro h
    cases hskip : skip s false t with
    | nil =>
      rw [split_of_skip_nil hskip] at h
      cases h
    | cons c u =>
      cases hr : readWord s .word (c :: u) with
      | error e =>
        rw [split, words, hskip] at h
        simp only [hr, bind, Except.bind] at h
        cases h
      | ok r =>
        have hpair : readWord s .word (c :: u) = .ok (r.1, r.2) := hr
        rw [split_of_skip hskip hpair] at h
        obtain ⟨more, hmore, heq⟩ := map_eq_ok h
        cases heq
        exact ⟨r.2, by simp, rfl, hmore⟩
  · rintro ⟨rest, hne, hr, hrest⟩
    obtain ⟨c, u, hskip⟩ := List.exists_cons_of_ne_nil hne
    rw [hskip] at hr
    rw [split_of_skip hskip hr, hrest]
    rfl

theorem split_eq_nil : split s t = .ok [] ↔ skip s false t = [] := by
  constructor
  · intro h
    cases hskip : skip s false t with
    | nil => rfl
    | cons c u =>
      rw [split, words, hskip] at h
      cases hr : readWord s .word (c :: u) with
      | error e =>
        simp only [hr, bind, Except.bind] at h
        cases h
      | ok r =>
        simp only [hr, bind, Except.bind] at h
        cases hw : words s t.length r.2 <;> rw [hw] at h <;> cases h
  · exact split_of_skip_nil

/-- A first word that stands there as it is. -/
theorem split_append {first : List α} (hne : first ≠ []) (hplain : first.all s.plain = true)
    (hb : Boundary s t) : split s (first ++ t) = (split s t).map fun ws => first :: ws := by
  obtain ⟨c, u, rfl⟩ := List.exists_cons_of_ne_nil hne
  have hc : s.ends c = false := Signs.plain_inner (List.all_eq_true.mp hplain c List.mem_cons_self)
  have hread := readWord_plain hplain (readWord_of_boundary hb)
  rw [List.append_nil] at hread
  exact split_of_skip (skip_self hc) hread

/-! ## Pieces -/

/-- A word as it is written: as it is, or with its end between quotes. -/
inductive Piece (α : Type) where
  | bare (w : List α)
  | quoted (front v : List α)

def Piece.word : Piece α → List α
  | .bare w => w
  | .quoted front v => front ++ v

def Piece.text (s : Signs α) : Piece α → List α
  | .bare w => w
  | .quoted front v => front ++ s.quote :: (v ++ [s.quote])

def render (s : Signs α) (ps : List (Piece α)) : List α :=
  ps.flatMap fun p => s.space :: p.text s

/-- The front of a quoted piece is a key and a sign behind it, none of them a sign of the lexer. -/
def Piece.Led (s : Signs α) : Piece α → Prop
  | .bare _ => True
  | .quoted front _ => 2 ≤ front.length ∧ ∀ c ∈ front, c ≠ s.quote ∧ c ≠ s.escape

/-- The piece is read back as its word. -/
def Piece.Good (s : Signs α) : Piece α → Prop
  | .bare w => w ≠ [] ∧ w.all s.plain = true
  | .quoted front v => front.all s.plain = true ∧ s.quotable v = true

instance (p : Piece α) : Decidable (p.Good s) :=
  match p with
  | .bare w => inferInstanceAs (Decidable (w ≠ [] ∧ w.all s.plain = true))
  | .quoted front v => inferInstanceAs (Decidable (front.all s.plain = true ∧ s.quotable v = true))

omit [DecidableEq α] in
theorem render_cons (p : Piece α) (ps : List (Piece α)) :
    render s (p :: ps) = s.space :: (p.text s ++ render s ps) := List.flatMap_cons

omit [DecidableEq α] in
theorem render_cons_append (p : Piece α) (ps : List (Piece α)) (z : List α) :
    render s (p :: ps) ++ z = s.space :: (p.text s ++ (render s ps ++ z)) := by
  rw [render_cons, List.cons_append, List.append_assoc]

/-- The signs that words take up at the least, each with one in front of it. -/
def need : List (List α) → ℕ
  | [] => 0
  | w :: ws => w.length + 1 + need ws

theorem need_le {ws : List (List α)} (hb : Boundary s t) (h : split s t = .ok ws) :
    need ws ≤ t.length := by
  induction ws generalizing t with
  | nil => exact Nat.zero_le _
  | cons w ws ih =>
    obtain ⟨rest, hne, hr, hrest⟩ := split_eq_cons.mp h
    have hw := readWord_length hr
    have hws := ih (readWord_boundary hr) hrest
    cases t with
    | nil => exact absurd rfl hne
    | cons c u =>
      have hlt := skip_lt (hb c rfl) (u := u)
      simp only [need, List.length_cons, debt] at hw hws ⊢
      omega

/-- A piece that is read from some end of its text takes no less than its text, and the whole of it
only where it is good. -/
theorem piece_read {p : Piece α} (hled : p.Led s) {t₂ : List α}
    (hsub : t <:+ s.space :: (p.text s ++ t₂)) (hb : Boundary s t) (hne : skip s false t ≠ [])
    (hr : readWord s .word (skip s false t) = .ok (p.word, rest)) :
    rest.length ≤ t₂.length ∧
      (rest.length = t₂.length → t = s.space :: (p.text s ++ t₂) ∧ p.Good s) := by
  have hlt : (skip s false t).length + 1 ≤ t.length := by
    cases t with
    | nil => exact absurd rfl hne
    | cons c u => exact Nat.succ_le_succ (skip_lt (hb c rfl))
  have hsub_le := hsub.length_le
  have hskip : skip s false t <:+ p.text s ++ t₂ := by
    refine List.suffix_of_suffix_length_le ((skip_suffix false t).trans hsub)
      (List.suffix_cons _ _) ?_
    rw [List.length_cons] at hsub_le
    omega
  have hword := readWord_length hr
  have hinner : ∀ c u, skip s false t = c :: u → s.ends c = false := fun c u h => skip_inner h
  generalize skip s false t = x at hlt hskip hword hr hinner hne
  rw [List.length_cons, List.length_append] at hsub_le
  cases p with
  | bare w =>
    simp only [Piece.text, Piece.word, debt] at hsub hsub_le hskip hword hr ⊢
    refine ⟨by omega, ?_⟩
    intro heq
    obtain rfl := hskip.eq_of_length (by rw [List.length_append]; omega)
    obtain ⟨htail, hplain⟩ := readWord_exact hr
      (by simp only [List.length_append, debt]; omega)
    have ht := hsub.eq_of_length (by rw [List.length_cons, List.length_append]; omega)
    refine ⟨ht, ?_, hplain⟩
    rintro rfl
    obtain rfl := List.append_cancel_left htail
    obtain ⟨c, u, rfl⟩ := List.exists_cons_of_ne_nil hne
    have hend := readWord_boundary hr c rfl
    rw [hinner c u rfl] at hend
    cases hend
  | quoted front v =>
    obtain ⟨htwo, hfront⟩ := hled
    have htext : (Piece.quoted front v).text s ++ t₂ = front ++ s.quote :: (v ++ s.quote :: t₂) := by
      simp [Piece.text]
    rw [htext] at hskip hsub ⊢
    simp only [Piece.text, Piece.word, debt, List.length_append, List.length_cons,
      List.length_nil] at hsub_le hword hr
    by_cases hx : x.length ≤ v.length + 1 + t₂.length
    · exact ⟨by omega, fun heq => by omega⟩
    obtain ⟨front', rfl⟩ : s.quote :: (v ++ s.quote :: t₂) <:+ x := by
      refine List.suffix_of_suffix_length_le (List.suffix_append front _) hskip ?_
      simp only [List.length_append, List.length_cons]
      omega
    obtain ⟨gone, hgone⟩ := hskip
    obtain rfl : gone ++ front' = front := by
      rw [← List.append_assoc] at hgone
      exact List.append_cancel_right hgone
    have hfront' : ∀ c ∈ front', c ≠ s.quote ∧ c ≠ s.escape :=
      fun c hc => hfront c (List.mem_append_right _ hc)
    obtain ⟨hplain, v', hv', hread⟩ := readWord_front hfront' hr
      (by simp only [List.length_append]; omega)
    obtain ⟨_, hend, _⟩ | ⟨_, u, hu, rfl⟩ := readWord_cons hread
    · rw [Signs.ends, s.quote_inner] at hend
      cases hend
    have hstep : step s .word s.quote = (.quoted, []) := by rw [step, if_pos rfl]
    rw [hstep] at hu hv'
    have hu_le := readWord_length hu
    have hv_len := congrArg List.length hv'
    simp only [List.length_append, List.length_cons, List.length_nil, debt] at hu_le hv_len hlt
    refine ⟨by omega, ?_⟩
    intro heq
    obtain rfl : gone = [] := List.length_eq_zero_iff.mp (by omega)
    obtain rfl : v = u := by simpa using hv'
    obtain ⟨x, y, htail, hxy, hx, hy⟩ := readWord_exact hu
      (by simp only [List.length_append, List.length_cons, debt]; omega)
    have ht := hsub.eq_of_length (by
      simp only [List.nil_append, List.length_append, List.length_cons] at hsub_le ⊢
      omega)
    refine ⟨ht, hplain, ?_⟩
    -- the quote that ends the text is the one behind what was quoted
    have hquote : y ++ s.quote :: t₂ = s.quote :: (y ++ rest) := by
      rw [hxy, List.append_assoc] at htail
      exact List.append_cancel_left htail
    cases y with
    | nil =>
      rw [hxy, List.append_nil]
      exact hx
    | cons c y =>
      obtain rfl : c = s.quote := (List.cons.inj hquote).1
      simp [Signs.plain] at hy

/-- Pieces and a tail that is no longer than its words need. Reading their words from some end of
the text is reading the whole text, every piece as it is written. -/
theorem split_render_exact {ps : List (Piece α)} (hled : ∀ p ∈ ps, p.Led s) {z : List α}
    {v : List (List α)} (hz : z.length ≤ need v) (hsub : t <:+ render s ps ++ z)
    (hb : Boundary s t) (h : split s t = .ok (ps.map Piece.word ++ v)) :
    t = render s ps ++ z ∧ (∀ p ∈ ps, p.Good s) ∧ split s z = .ok v := by
  induction ps generalizing t with
  | nil =>
    obtain rfl : t = z := hsub.eq_of_length_le (hz.trans (need_le hb h))
    exact ⟨rfl, fun p hp => absurd hp List.not_mem_nil, h⟩
  | cons p ps ih =>
    rw [List.forall_mem_cons] at hled
    rw [render_cons_append] at hsub ⊢
    obtain ⟨rest, hne, hr, hrest⟩ := split_eq_cons.mp h
    obtain ⟨hle, hgood⟩ := piece_read hled.1 hsub hb hne hr
    have hrest_sub : rest <:+ render s ps ++ z := by
      refine List.suffix_of_suffix_length_le ?_
        ((List.suffix_append (p.text s) _).trans (List.suffix_cons s.space _)) hle
      exact (readWord_suffix hr).trans ((skip_suffix false t).trans hsub)
    obtain ⟨heq, hps, hsplit⟩ := ih hled.2 hrest_sub (readWord_boundary hr) hrest
    obtain ⟨ht, hp⟩ := hgood (congrArg List.length heq)
    exact ⟨ht, List.forall_mem_cons.mpr ⟨hp, hps⟩, hsplit⟩

omit [DecidableEq α] in
theorem render_boundary {ps : List (Piece α)} {z : List α} (hz : Boundary s z) :
    Boundary s (render s ps ++ z) := by
  cases ps with
  | nil => exact hz
  | cons p ps =>
    intro c hc
    cases hc
    simp [Signs.ends, s.space_blank]

/-- A good piece is read as its word. -/
theorem readWord_piece {p : Piece α} (hp : p.Good s) (hrest : Boundary s rest) :
    readWord s .word (p.text s ++ rest) = .ok (p.word, rest) := by
  cases p with
  | bare w =>
    have hw := readWord_plain hp.2 (readWord_of_boundary hrest)
    rwa [List.append_nil] at hw
  | quoted front v =>
    have hquoted := readWord_quotable hp.2 (readWord_of_boundary hrest)
    have hopen : readWord s .word (s.quote :: (v ++ s.quote :: rest)) = .ok (v, rest) := by
      rw [readWord, if_neg (by simp [Signs.ends, s.quote_inner]), step, if_pos rfl, hquoted]
      simp [Except.map]
    have htext : (Piece.quoted front v).text s ++ rest =
        front ++ s.quote :: (v ++ s.quote :: rest) := by simp [Piece.text]
    rw [htext]
    exact readWord_plain hp.1 hopen

theorem Piece.text_inner {p : Piece α} (hp : p.Good s) :
    ∃ c u, p.text s = c :: u ∧ s.ends c = false := by
  cases p with
  | bare w =>
    obtain ⟨hne, hplain⟩ := hp
    obtain ⟨c, u, rfl⟩ := List.exists_cons_of_ne_nil hne
    exact ⟨c, u, rfl, Signs.plain_inner (List.all_eq_true.mp hplain c List.mem_cons_self)⟩
  | quoted front v =>
    cases front with
    | nil => exact ⟨s.quote, _, rfl, s.quote_inner⟩
    | cons c front =>
      exact ⟨c, _, rfl, Signs.plain_inner (List.all_eq_true.mp hp.1 c List.mem_cons_self)⟩

theorem split_render {ps : List (Piece α)} (hgood : ∀ p ∈ ps, p.Good s) {z : List α}
    (hz : Boundary s z) {v : List (List α)} (h : split s z = .ok v) :
    split s (render s ps ++ z) = .ok (ps.map Piece.word ++ v) := by
  induction ps with
  | nil => exact h
  | cons p ps ih =>
    rw [List.forall_mem_cons] at hgood
    obtain ⟨c, u, hcu, hc⟩ := Piece.text_inner hgood.1
    have hb : Boundary s (render s ps ++ z) := render_boundary hz
    have hread := readWord_piece hgood.1 hb
    have hskip : skip s false (s.space :: (p.text s ++ (render s ps ++ z))) =
        p.text s ++ (render s ps ++ z) := by
      rw [skip_space, hcu]
      exact skip_self hc
    rw [render_cons_append, List.map_cons, List.cons_append, split_eq_cons]
    exact ⟨_, by rw [hskip, hcu]; simp, by rw [hskip]; exact hread, ih hgood.2⟩

/-! ## What is found in a text -/

omit [DecidableEq α] in
theorem infix_of_append_cons {p a b : List α} {c : α} (hc : c ∉ p) (h : p <:+: a ++ c :: b) :
    p <:+: a ∨ p <:+: b := by
  obtain ⟨x, y, hxy⟩ := h
  rcases List.append_eq_append_iff.mp hxy with ⟨z, rfl, _⟩ | ⟨z, hz, hy⟩
  · rw [List.append_assoc]
    exact .inl (List.infix_append' x p z)
  · cases z with
    | nil =>
      rw [List.append_nil] at hz
      exact .inl ⟨x, [], by rw [hz, List.append_nil]⟩
    | cons d z =>
      obtain ⟨rfl, rfl⟩ := List.cons.inj hy
      have hz' : x ++ p = (a ++ [c]) ++ z := by simpa using hz
      rcases List.append_eq_append_iff.mp hz' with ⟨u, hu, rfl⟩ | ⟨u, _, rfl⟩
      · -- the delimiter ends what is in front, so nothing of the pattern is there
        rcases List.eq_nil_or_concat u with rfl | ⟨u, d, rfl⟩
        · exact .inr ⟨[], y, rfl⟩
        · rw [List.concat_eq_append, ← List.append_assoc] at hu
          obtain rfl := (List.append_inj' hu rfl).2 |> List.singleton_inj.mp
          simp at hc
      · exact .inr ⟨u, y, by simp⟩

omit [DecidableEq α] in
/-- What has neither a blank nor a quote in it is found in a word. -/
theorem infix_render {pat : List α} {ps : List (Piece α)} (hne : pat ≠ []) (hspace : s.space ∉ pat)
    (hquote : s.quote ∉ pat) (h : pat <:+: render s ps) : ∃ p ∈ ps, pat <:+: p.word := by
  induction ps with
  | nil => exact absurd (List.infix_nil.mp h) hne
  | cons p ps ih =>
    have hfirst : pat <:+: p.text s → pat <:+: p.word := by
      intro htext
      cases p with
      | bare w => exact htext
      | quoted front v =>
        rcases infix_of_append_cons hquote htext with hfront | hrest
        · exact hfront.trans List.infix_append_left
        · rcases infix_of_append_cons hquote hrest with hv | hnil
          · exact hv.trans List.infix_append_right
          · exact absurd (List.infix_nil.mp hnil) hne
    have hrest : pat <:+: p.text s ++ render s ps → pat <:+: p.text s ∨ pat <:+: render s ps := by
      intro h
      cases ps with
      | nil =>
        rw [render, List.flatMap_nil, List.append_nil] at h
        exact .inl h
      | cons q ps =>
        rw [render_cons] at h ⊢
        exact (infix_of_append_cons hspace h).imp_right fun hi => hi.trans (List.suffix_cons _ _).isInfix
    rw [render_cons] at h
    rcases infix_of_append_cons (a := []) hspace h with hnil | hrender
    · exact absurd (List.infix_nil.mp hnil) hne
    rcases hrest hrender with hp | hps
    · exact ⟨p, List.mem_cons_self, hfirst hp⟩
    · obtain ⟨q, hq, hfound⟩ := ih hps
      exact ⟨q, List.mem_cons_of_mem p hq, hfound⟩

/-! ## Counting signs -/

theorem step_countP {p : α → Bool} (hp : p s.escape = false) (m : Mode) (c : α) :
    (step s m c).2.countP p ≤ [c].countP p := by
  cases m with
  | word | quoted =>
    rw [step]
    split
    · exact Nat.zero_le _
    · split
      · exact Nat.zero_le _
      · exact Nat.le_refl _
  | escape => exact Nat.le_refl _
  | quotedEscape =>
    rw [step]
    split
    · exact Nat.le_refl _
    · rw [List.countP_cons_of_neg (by simp [hp])]

/-- Reading adds no sign but the escape sign. -/
theorem readWord_countP {p : α → Bool} (hp : p s.escape = false)
    (h : readWord s m t = .ok (w, rest)) : w.countP p + rest.countP p ≤ t.countP p := by
  induction t generalizing m w with
  | nil =>
    cases m <;> cases h
    exact Nat.le_refl 0
  | cons c t ih =>
    rcases readWord_cons h with ⟨rfl, _, rfl, rfl⟩ | ⟨_, v, hv, rfl⟩
    · simp
    · have hrest := ih hv
      have hstep := step_countP hp m c
      rw [List.countP_append, ← List.singleton_append, List.countP_append]
      omega

omit [DecidableEq α] in
theorem Piece.countP_text {p : α → Bool} (hquote : p s.quote = false) (q : Piece α) :
    (q.text s).countP p = q.word.countP p := by
  cases q with
  | bare w => rfl
  | quoted front v => simp [Piece.text, Piece.word, hquote]

omit [DecidableEq α] in
theorem countP_render {p : α → Bool} {ps : List (Piece α)} (hspace : p s.space = false)
    (hquote : p s.quote = false) :
    (render s ps).countP p = (ps.map Piece.word).flatten.countP p := by
  induction ps with
  | nil => rfl
  | cons q ps ih =>
    rw [render_cons, List.countP_cons_of_neg (by simp [hspace]), List.countP_append,
      Piece.countP_text hquote, ih]
    simp

theorem skip_countP (p : α → Bool) (b : Bool) (t : List α) :
    (skip s b t).countP p ≤ t.countP p :=
  (skip_suffix b t).sublist.countP_le

theorem split_countP {p : α → Bool} (hp : p s.escape = false) {ws : List (List α)}
    (h : split s t = .ok ws) : ws.flatten.countP p ≤ (skip s false t).countP p := by
  induction ws generalizing t with
  | nil => exact Nat.zero_le _
  | cons w ws ih =>
    obtain ⟨rest, _, hr, hrest⟩ := split_eq_cons.mp h
    have hws := (ih hrest).trans (skip_countP p false rest)
    have hw := readWord_countP hp hr
    rw [List.flatten_cons, List.countP_append]
    omega

omit [DecidableEq α] in
/-- A text that lost nothing that counts goes as far as the last sign that counts. -/
theorem reaches_of_countP {p : α → Bool} {cut a b : List α} {d : α} (hd : p d = true)
    (hcut : cut.countP p = 0) (h : t ++ cut = a ++ d :: b) : ∃ u, t = a ++ d :: u ∧ u ++ cut = b := by
  rcases List.append_eq_append_iff.mp h with ⟨e, _, rfl⟩ | ⟨e, rfl, he⟩
  · rw [List.countP_append, List.countP_cons_of_pos hd] at hcut
    omega
  · cases e with
    | nil =>
      obtain rfl : d :: b = cut := he
      rw [List.countP_cons_of_pos hd] at hcut
      omega
    | cons c u =>
      obtain ⟨rfl, rfl⟩ := List.cons.inj he
      exact ⟨u, rfl, rfl⟩

/-! ## Comments -/

/-- The lexer to which no sign opens a comment. -/
def Signs.uncommented (s : Signs α) : Signs α where
  blank := s.blank
  comment _ := false
  space := s.space
  newline := s.newline
  quote := s.quote
  escape := s.escape
  space_blank := s.space_blank
  quote_inner := by
    have h := s.quote_inner
    rw [Bool.or_eq_false_iff] at h
    rw [h.1]
    rfl
  escape_comment := rfl

/-- A word that ends at a blank is the same to both lexers. -/
theorem readWord_uncommented (h : readWord s m t = .ok (w, rest))
    (hrest : ∀ c ∈ rest.head?, s.comment c = false) :
    readWord s.uncommented m t = .ok (w, rest) := by
  induction t generalizing m w with
  | nil =>
    cases m <;> cases h
    rfl
  | cons c t ih =>
    rcases readWord_cons h with ⟨rfl, hend, rfl, rfl⟩ | ⟨hend, v, hv, rfl⟩
    · have hblank : s.uncommented.ends c = true := by
        rw [Signs.ends, hrest c rfl, Bool.or_false] at hend
        rw [Signs.ends]
        simp [Signs.uncommented, hend]
      rw [readWord, if_pos ⟨rfl, hblank⟩]
    · have hgo : ¬(m = .word ∧ s.uncommented.ends c = true) := by
        rintro ⟨rfl, hblank⟩
        refine hend ⟨rfl, ?_⟩
        simp only [Signs.ends, Signs.uncommented, Bool.or_false] at hblank
        rw [Signs.ends, hblank, Bool.true_or]
      have hstep : step s.uncommented m c = step s m c := by cases m <;> rfl
      rw [readWord, if_neg hgo, hstep, ih hv]
      rfl

theorem skip_uncommented (h : (skip s false t).countP s.comment = t.countP s.comment) :
    skip s.uncommented false t = skip s false t := by
  induction t with
  | nil => rfl
  | cons c t ih =>
    have hcons : skip s.uncommented false (c :: t) =
        if s.blank c then skip s.uncommented false t else c :: t := by
      rw [skip]
      rfl
    rw [hcons]
    rw [skip] at h ⊢
    split at h
    · rename_i hblank
      rw [if_pos hblank, if_pos hblank]
      refine ih (Nat.le_antisymm (skip_countP s.comment false t) ?_)
      rw [h]
      exact List.Sublist.countP_le (List.sublist_cons_self c t)
    · rename_i hblank
      rw [if_neg hblank, if_neg hblank]
      split at h
      · rename_i hcomment
        have hle := skip_countP (s := s) s.comment true t
        rw [h, List.countP_cons_of_pos hcomment] at hle
        omega
      · rename_i hcomment
        rw [if_neg hcomment]

/-- A comment sign at the front is passed over. -/
theorem skip_countP_comment {c : α} {u : List α} (hc : s.comment c = true) :
    (skip s false (c :: u)).countP s.comment < (c :: u).countP s.comment := by
  have hsub : skip s false (c :: u) <:+ u :=
    List.suffix_of_suffix_length_le (skip_suffix false _) (List.suffix_cons c u)
      (skip_lt (by rw [Signs.ends, hc, Bool.or_true]))
  rw [List.countP_cons_of_pos hc]
  exact Nat.lt_succ_of_le hsub.sublist.countP_le

/-- A reader that lost no comment sign met no comment. -/
theorem split_uncommented {ws : List (List α)} (h : split s t = .ok ws)
    (hcount : t.countP s.comment ≤ ws.flatten.countP s.comment) :
    split s.uncommented t = .ok ws := by
  induction ws generalizing t with
  | nil =>
    have hnil := split_eq_nil.mp h
    have hskip : skip s.uncommented false t = skip s false t := by
      apply skip_uncommented
      rw [hnil]
      exact (Nat.le_zero.mp hcount).symm
    exact split_of_skip_nil (hskip.trans hnil)
  | cons w ws ih =>
    obtain ⟨rest, hne, hr, hrest⟩ := split_eq_cons.mp h
    have hws := split_countP s.escape_comment hrest
    have hgone := skip_countP (s := s) s.comment false rest
    have hw := readWord_countP s.escape_comment hr
    have ht := skip_countP (s := s) s.comment false t
    rw [List.flatten_cons, List.countP_append] at hcount
    have hskip : skip s.uncommented false t = skip s false t := skip_uncommented (by omega)
    have hhead : ∀ c ∈ rest.head?, s.comment c = false := by
      intro c hc
      by_contra hcomment
      obtain ⟨u, rfl⟩ : ∃ u, rest = c :: u := by
        cases rest with
        | nil => cases hc
        | cons d u =>
          cases hc
          exact ⟨u, rfl⟩
      have hlost := skip_countP_comment (u := u) (by simpa using hcomment)
      omega
    rw [split_eq_cons, hskip]
    exact ⟨rest, hne, readWord_uncommented hr hhead, ih hrest (by omega)⟩

end Lexer
end Foundation.Shlex
