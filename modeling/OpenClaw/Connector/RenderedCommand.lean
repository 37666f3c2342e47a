import Mathlib.Data.List.Flatten
import OpenClaw.Connector.CommandFirewall

/-!
# The rendering of a validated command

A suggestion that is safe is shown as `NormalizedCommand.to_string` writes it, and what is shown is
what the router gets. Every word is a piece of the text, and the words behind the same flags and
arguments are read from it in one order only. So the text stands for the command that was validated
if and only if each piece is read back as its word.
-/

namespace OpenClaw.Connector.Firewall

open Foundation Shlex
set_option autoImplicit false

/-! ## What is rendered -/

def flagWord (f : Flag) : CodePoints := f.1 ++ equalsSign :: f.2

def flagPiece (f : Flag) : Piece CodePoint :=
  if blankSign ∈ f.2 ∨ f.2 = [] then .quoted (f.1 ++ [equalsSign]) f.2 else .bare (flagWord f)

/-- A word as it is rendered. -/
def pieceOf (w : CodePoints) : Piece CodePoint := (flag? w).elim (.bare w) flagPiece

def keyOf (w : CodePoints) : CodePoints := ((flag? w).map Prod.fst).getD []

/-- The words that no flag behind them overwrites. -/
def kept : List CodePoints → List CodePoints
  | [] => []
  | w :: ws =>
    if (flag? w).any fun f => decide (f.1 ∈ (ws.filterMap flag?).map Prod.fst) then kept ws
    else w :: kept ws

/-- The words of a suggestion as its rendering has them. -/
def shown (ws : List CodePoints) : List CodePoints :=
  sortedBy keyOf ((kept ws).filter fun w => (flag? w).isSome) ++ argsOf ws

theorem flag?_eq_some {w : CodePoints} {f : Flag} (h : flag? w = some f) :
    w = flagWord f ∧ equalsSign ∉ f.1 := by
  rw [flag?] at h
  split at h
  · cases h
  · exact splitFirst?_eq_some.mp h

theorem flagPiece_word (f : Flag) : (flagPiece f).word = flagWord f := by
  rw [flagPiece]
  split
  · simp [Piece.word, flagWord]
  · rfl

theorem pieceOf_word (w : CodePoints) : (pieceOf w).word = w := by
  cases hf : flag? w with
  | none =>
    rw [pieceOf, hf]
    rfl
  | some f =>
    rw [pieceOf, hf, Option.elim_some, flagPiece_word, ← (flag?_eq_some hf).1]

theorem map_pieceOf_word (ws : List CodePoints) : (ws.map pieceOf).map Piece.word = ws := by
  rw [List.map_map]
  exact List.map_id'' pieceOf_word ws

theorem flagText_eq (f : Flag) : flagText f = (flagPiece f).text lexer := by
  rw [flagText, flagPiece]
  split
  · simp [Piece.text, lexer]
  · rfl

theorem mem_kept {ws : List CodePoints} {w : CodePoints} (h : w ∈ kept ws) : w ∈ ws := by
  induction ws with
  | nil => cases h
  | cons x ws ih =>
    rw [kept] at h
    split at h
    · exact List.mem_cons_of_mem x (ih h)
    · rcases List.mem_cons.mp h with rfl | h
      · exact List.mem_cons_self
      · exact List.mem_cons_of_mem x (ih h)

theorem get?_ofRows_cons (f : Flag) (rows : List Flag) (k : CodePoints) :
    (Table.ofRows (f :: rows) : Flags).get? k =
      ((Table.ofRows rows : Flags).get? k).or (if f.1 = k then some f else none) := by
  rw [Table.get?_ofRows, Table.get?_ofRows, List.reverse_cons, List.find?_append]
  by_cases hk : f.1 = k <;> simp [hk]

theorem get?_ofRows_eq_none {rows : List Flag} {k : CodePoints} :
    (Table.ofRows rows : Flags).get? k = none ↔ k ∉ rows.map Prod.fst := by
  rw [Table.get?_ofRows, List.find?_eq_none]
  simp only [List.mem_reverse, decide_eq_true_eq, List.mem_map, not_exists, not_and]

theorem mem_rows {flags : Flags} {f : Flag} : f ∈ flags.rows ↔ flags.get? f.1 = some f :=
  ⟨Table.get?_key, Table.mem_of_get?⟩

theorem mem_flagsOf {ws : List CodePoints} {f : Flag} :
    f ∈ (flagsOf ws).rows ↔ f ∈ (kept ws).filterMap flag? := by
  induction ws with
  | nil => rfl
  | cons w ws ih =>
    rw [flagsOf, kept]
    cases hw : flag? w with
    | none =>
      rw [List.filterMap_cons_none hw, Option.any_none, if_neg (by simp),
        List.filterMap_cons_none hw]
      exact ih
    | some g =>
      rw [List.filterMap_cons_some hw, mem_rows, get?_ofRows_cons, Option.any_some]
      change f ∈ (Table.ofRows _ : Flags).rows ↔ _ at ih
      rw [mem_rows] at ih
      by_cases hover : g.1 ∈ (ws.filterMap flag?).map Prod.fst
      · rw [if_pos (decide_eq_true hover), ← ih]
        cases hf : (Table.ofRows (ws.filterMap flag?) : Flags).get? f.1 with
        | some h => simp
        | none =>
          rw [get?_ofRows_eq_none] at hf
          have hne : g.1 ≠ f.1 := fun he => hf (he ▸ hover)
          simp [hne]
      · rw [if_neg (c := decide (g.1 ∈ _) = true) fun h => hover (of_decide_eq_true h),
          List.filterMap_cons_some hw, List.mem_cons, ← ih]
        have hnone := get?_ofRows_eq_none.mpr hover
        by_cases hk : g.1 = f.1
        · rw [← hk, hnone]
          simp [eq_comm]
        · have hfg : f ≠ g := fun he => hk (he ▸ rfl)
          simp [hk, hfg]

theorem kept_keys_nodup (ws : List CodePoints) : (((kept ws).filterMap flag?).map Prod.fst).Nodup := by
  induction ws with
  | nil => exact List.nodup_nil
  | cons w ws ih =>
    rw [kept]
    split
    · exact ih
    · rename_i hlast
      cases hw : flag? w with
      | none =>
        rw [List.filterMap_cons_none hw]
        exact ih
      | some f =>
        rw [List.filterMap_cons_some hw, List.map_cons, List.nodup_cons]
        refine ⟨fun hmem => hlast ?_, ih⟩
        obtain ⟨g, hg, hkey⟩ := List.mem_map.mp hmem
        obtain ⟨x, hx, hxg⟩ := List.mem_filterMap.mp hg
        rw [hw, Option.any_some, decide_eq_true_eq, ← hkey]
        exact List.mem_map_of_mem (List.mem_filterMap.mpr ⟨x, mem_kept hx, hxg⟩)

/-- The flags that are stored are those of the words that are kept. -/
theorem flagsOf_perm (ws : List CodePoints) :
    (flagsOf ws).rows.Perm ((kept ws).filterMap flag?) := by
  rw [List.perm_ext_iff_of_nodup (List.Nodup.of_map _ (flagsOf ws).nodup)
    (List.Nodup.of_map _ (kept_keys_nodup ws))]
  exact fun f => mem_flagsOf

theorem map_flagWord (ws : List CodePoints) :
    (ws.filterMap flag?).map flagWord = ws.filter fun w => (flag? w).isSome := by
  induction ws with
  | nil => rfl
  | cons w ws ih =>
    cases hw : flag? w with
    | none => rw [List.filterMap_cons_none hw, ih, List.filter_cons_of_neg (by simp [hw])]
    | some f =>
      rw [List.filterMap_cons_some hw, List.map_cons, ih, List.filter_cons_of_pos (by simp [hw]),
        ← (flag?_eq_some hw).1]

theorem map_keyOf (ws : List CodePoints) :
    (ws.filter fun w => (flag? w).isSome).map keyOf = (ws.filterMap flag?).map Prod.fst := by
  induction ws with
  | nil => rfl
  | cons w ws ih =>
    cases hw : flag? w with
    | none => rw [List.filterMap_cons_none hw, ← ih, List.filter_cons_of_neg (by simp [hw])]
    | some f =>
      have hkey : keyOf w = f.1 := by simp [keyOf, hw]
      rw [List.filterMap_cons_some hw, List.map_cons, ← ih, List.filter_cons_of_pos (by simp [hw]),
        List.map_cons, hkey]

theorem flag?_flagWord {ws : List CodePoints} {f : Flag} (h : f ∈ (flagsOf ws).rows) :
    flag? (flagWord f) = some f := by
  obtain ⟨w, _, hw⟩ := List.mem_filterMap.mp (mem_flagsOf.mp h)
  rwa [← (flag?_eq_some hw).1]

theorem shown_eq (ws : List CodePoints) :
    (sortedBy Prod.fst (flagsOf ws).rows).map flagWord ++ argsOf ws = shown ws := by
  rw [shown]
  congr 1
  apply sortedBy_eq_of_perm
  · rw [← map_flagWord]
    exact ((sortedBy_perm _ _).trans (flagsOf_perm ws)).map flagWord
  · rw [map_keyOf]
    exact kept_keys_nodup ws
  · rw [List.pairwise_map]
    refine (sortedBy_pairwise Prod.fst (flagsOf ws).rows).imp_of_mem ?_
    intro f g hf hg hle
    rw [mem_sortedBy] at hf hg
    rwa [keyOf, keyOf, flag?_flagWord hf, flag?_flagWord hg]

theorem intercalate_cons (c : CodePoints) (ts : List CodePoints) :
    List.intercalate [blankSign] (c :: ts) = c ++ ts.flatMap fun t => blankSign :: t := by
  induction ts generalizing c with
  | nil => simp
  | cons t ts ih =>
    rw [List.intercalate_cons_cons, ih, List.flatMap_cons]
    simp

/-- The rendering is the command and the pieces of the words. -/
theorem toString_eq {c : NormalizedCommand} {ws : List CodePoints} (hargs : c.args = argsOf ws)
    (hflags : c.flags = flagsOf ws) :
    c.toString = c.command ++ render lexer ((shown ws).map pieceOf) := by
  have hflag : (sortedBy Prod.fst (flagsOf ws).rows).map (fun f => (pieceOf (flagWord f)).text lexer) =
      (sortedBy Prod.fst (flagsOf ws).rows).map flagText := by
    refine List.map_congr_left fun f hf => ?_
    rw [pieceOf, flag?_flagWord ((mem_sortedBy _ _ _).mp hf), flagText_eq]
    rfl
  have harg : (argsOf ws).map (fun w => (pieceOf w).text lexer) = argsOf ws := by
    refine (List.map_congr_left fun w hw => ?_).trans (List.map_id _)
    have hnone : flag? w = none := Option.isNone_iff_eq_none.mp (List.mem_filter.mp hw).2
    rw [pieceOf, hnone]
    rfl
  rw [NormalizedCommand.toString, intercalate_cons, hargs, hflags, ← hflag, ← harg, render,
    ← shown_eq]
  simp only [List.flatMap_append, List.flatMap_map, List.map_append]
  rfl

/-! ## The rendered text -/

def isSpace (c : CodePoint) : Bool := PyText.isSpaceCode c.val

theorem allowed_shape {c : CodePoints} (h : c ∈ allowedCommands) :
    ∃ ys d, c = 47 :: (ys ++ [d]) ∧ isSpace d = false := by
  simp only [allowedCommands, List.mem_cons, List.not_mem_nil, or_false] at h
  rcases h with rfl | rfl | rfl | rfl
  · exact ⟨text "ru", 110, by decide, by decide⟩
  · exact ⟨text "statu", 115, by decide, by decide⟩
  · exact ⟨text "hel", 112, by decide, by decide⟩
  · exact ⟨text "job", 115, by decide, by decide⟩

def isCommandChar (c : CodePoint) : Bool := decide (c.val = 47 ∨ (97 ≤ c.val ∧ c.val ≤ 122))

theorem allowed_chars {c : CodePoints} (h : c ∈ allowedCommands) : c.all isCommandChar = true := by
  simp only [allowedCommands, List.mem_cons, List.not_mem_nil, or_false] at h
  rcases h with rfl | rfl | rfl | rfl <;> decide

theorem allowed_plain {c : CodePoints} (h : c ∈ allowedCommands) : c.all lexer.plain = true := by
  refine List.all_eq_true.mpr fun d hd => ?_
  have hchar := of_decide_eq_true (List.all_eq_true.mp (allowed_chars h) d hd)
  have hquote : d ≠ quoteSign := fun he => absurd (he ▸ hchar) (by decide)
  have hescape : d ≠ lexer.escape := fun he => absurd (he ▸ hchar) (by decide)
  have hend : lexer.ends d = false := by
    simp only [Signs.ends, lexer, List.mem_cons, List.not_mem_nil, or_false, Bool.or_eq_false_iff,
      decide_eq_false_iff_not]
    omega
  rw [Signs.plain, hend]
  exact decide_eq_true ⟨hquote, hescape⟩

theorem lower_allowed {lower : LowerCase} {c : CodePoints} (h : c ∈ allowedCommands) :
    lower.apply c = c := by
  have hascii : c.isAscii = true := by
    refine List.all_eq_true.mpr fun d hd => decide_eq_true ?_
    have hchar := of_decide_eq_true (List.all_eq_true.mp (allowed_chars h) d hd)
    omega
  rw [lower.ascii c hascii, CodePoints.lower]
  refine (List.map_congr_left fun d hd => ?_).trans (List.map_id c)
  have hchar := of_decide_eq_true (List.all_eq_true.mp (allowed_chars h) d hd)
  rw [CodePoints.lowerPoint, if_neg (by omega), if_neg (by omega), id]

/-- What the patterns look for stands in no command, no key and nothing that is rendered around the
words. -/
theorem literal_char {p : DenyPattern} {d : CodePoint} (h : d ∈ p.literal) :
    isCommandChar d = false ∧ isKeyChar d = false ∧
      d ∉ [blankSign, quoteSign, equalsSign, newlineSign] := by
  cases p <;> simp only [DenyPattern.literal, List.mem_cons, List.not_mem_nil, or_false] at h
  case substitution => rcases h with rfl | rfl <;> decide
  all_goals
    subst h
    decide

/-- The pieces up to the last quoted one, and the bare ones behind it. -/
theorem pieces_split (ps : List (Piece CodePoint)) :
    ∃ (qs : List (Piece CodePoint)) (bs : List CodePoints), ps = qs ++ bs.map .bare ∧
      (qs = [] ∨ ∃ xs, render lexer qs = xs ++ [quoteSign]) := by
  induction ps using List.reverseRecOn with
  | nil => exact ⟨[], [], rfl, .inl rfl⟩
  | append_singleton ps p ih =>
    cases p with
    | bare w =>
      obtain ⟨qs, bs, rfl, hend⟩ := ih
      exact ⟨qs, bs ++ [w], by simp, hend⟩
    | quoted front v =>
      refine ⟨ps ++ [.quoted front v], [], by simp,
        .inr ⟨render lexer ps ++ blankSign :: (front ++ quoteSign :: v), ?_⟩⟩
      simp [render, Piece.text, lexer]

/-- Stripping takes something away from the bare pieces at the end only. -/
theorem strip_rendering {c : CodePoints} (hc : c ∈ allowedCommands) (ps : List (Piece CodePoint)) :
    ∃ (qs : List (Piece CodePoint)) (bs : List CodePoints) (z : CodePoints),
      ps = qs ++ bs.map .bare ∧ z <+: render lexer (bs.map .bare) ∧
      CodePoints.strip (c ++ render lexer ps) = c ++ (render lexer qs ++ z) := by
  obtain ⟨qs, bs, rfl, hend⟩ := pieces_split ps
  obtain ⟨ys, d, rfl, hd⟩ := allowed_shape hc
  refine ⟨qs, bs, (render lexer (bs.map .bare)).rdropWhile isSpace, rfl,
    List.rdropWhile_prefix _ _, ?_⟩
  have hrender : render lexer (qs ++ bs.map .bare) =
      render lexer qs ++ render lexer (bs.map .bare) := List.flatMap_append
  rw [hrender]
  have hstrip (zs : CodePoints) (e : CodePoint) (he : isSpace e = false) (r : CodePoints) :
      CodePoints.strip (47 :: (zs ++ e :: r)) = 47 :: (zs ++ e :: r.rdropWhile isSpace) :=
    PyText.stripWhere_delimited (by decide) he zs r
  rcases hend with rfl | ⟨xs, hxs⟩
  · simpa [render] using hstrip ys d hd (render lexer (bs.map .bare))
  · rw [hxs]
    simpa using hstrip (ys ++ [d] ++ xs) quoteSign (by decide) (render lexer (bs.map .bare))

/-- A key in front of its last newline is read as it is. -/
theorem validKey_front {k : CodePoints} (h : validKey k = true) :
    ∃ c u, (c :: u).all isKeyChar = true ∧ (k = c :: u ∨ k = c :: u ++ [newlineSign]) := by
  have hident (t : CodePoints) (ht : isIdentifier t = true) :
      ∃ c u, t = c :: u ∧ (c :: u).all isKeyChar = true := by
    cases t with
    | nil => cases ht
    | cons c u =>
      rw [isIdentifier, Bool.and_eq_true] at ht
      refine ⟨c, u, rfl, ?_⟩
      rw [List.all_cons, isKeyChar, ht.1, Bool.true_or, ht.2]
      rfl
  rw [validKey, Bool.or_eq_true, Bool.and_eq_true, decide_eq_true_eq] at h
  rcases h with h | ⟨hlast, h⟩
  · obtain ⟨c, u, rfl, hall⟩ := hident k h
    exact ⟨c, u, hall, .inl rfl⟩
  · obtain ⟨front, rfl⟩ := List.getLast?_eq_some_iff.mp hlast
    rw [List.dropLast_concat] at h
    obtain ⟨c, u, rfl, hall⟩ := hident front h
    exact ⟨c, u, hall, .inr rfl⟩

theorem validKey_chars {k : CodePoints} (h : validKey k = true) :
    k ≠ [] ∧ ∀ c ∈ k, isKeyChar c = true ∨ c = newlineSign := by
  obtain ⟨c, u, hall, rfl | rfl⟩ := validKey_front h
  · exact ⟨List.cons_ne_nil c u, fun d hd => .inl (List.all_eq_true.mp hall d hd)⟩
  · refine ⟨List.cons_ne_nil c _, fun d hd => ?_⟩
    rcases List.mem_append.mp hd with hd | hd
    · exact .inl (List.all_eq_true.mp hall d hd)
    · exact .inr (List.mem_singleton.mp hd)

theorem flagPiece_led {f : Flag} (h : validKey f.1 = true) : (flagPiece f).Led lexer := by
  obtain ⟨hne, hchars⟩ := validKey_chars h
  rw [flagPiece]
  split
  · have hlen := List.length_pos_iff.mpr hne
    refine ⟨by rw [List.length_append, List.length_singleton]; omega, fun c hc => ?_⟩
    rcases List.mem_append.mp hc with hc | hc
    · rcases hchars c hc with hkey | rfl
      · exact ⟨fun he => absurd (he ▸ hkey) (by decide), fun he => absurd (he ▸ hkey) (by decide)⟩
      · exact ⟨by decide, by decide⟩
    · rw [List.mem_singleton.mp hc]
      exact ⟨by decide, by decide⟩
  · trivial

theorem pieceOf_led {w : CodePoints} (h : Passes w) : (pieceOf w).Led lexer := by
  cases hf : flag? w with
  | none =>
    rw [pieceOf, hf]
    trivial
  | some f =>
    rw [pieceOf, hf]
    exact flagPiece_led (h f hf).1

theorem mem_shown {ws : List CodePoints} {w : CodePoints} (h : w ∈ shown ws) : w ∈ ws := by
  rw [shown, List.mem_append, mem_sortedBy] at h
  rcases h with h | h
  · exact mem_kept (List.mem_filter.mp h).1
  · exact (List.mem_filter.mp h).1

/-! ## Reading the rendering -/

theorem render_head {ps : List (Piece CodePoint)} {z : CodePoints}
    (hz : ∀ d ∈ z.head?, d = blankSign) : ∀ d ∈ (render lexer ps ++ z).head?, d = blankSign := by
  cases ps with
  | nil => exact hz
  | cons p ps =>
    intro d hd
    cases hd
    rfl

theorem render_starts (ps : List (Piece CodePoint)) :
    ∀ d ∈ (render lexer ps).head?, d = blankSign := by
  have hhead : ∀ d ∈ (render lexer ps ++ []).head?, d = blankSign := render_head (by simp)
  rwa [List.append_nil] at hhead

theorem boundary_of_blank {t : CodePoints} (ht : ∀ d ∈ t.head?, d = blankSign) :
    Boundary lexer t := by
  intro d hd
  rw [ht d hd]
  rfl

theorem head?_of_prefix {t z : CodePoints} (h : z <+: t) (ht : ∀ d ∈ t.head?, d = blankSign) :
    ∀ d ∈ z.head?, d = blankSign := by
  obtain ⟨y, rfl⟩ := h
  cases z with
  | nil =>
    intro d hd
    cases hd
  | cons c z => exact ht

theorem length_render_bare (bs : List CodePoints) :
    (render lexer (bs.map .bare)).length = need bs := by
  induction bs with
  | nil => rfl
  | cons b bs ih =>
    simp only [render, List.map_cons, List.flatMap_cons, List.length_append, List.length_cons,
      Piece.text, need] at ih ⊢
    omega

theorem allowed_ne_nil {c : CodePoints} (h : c ∈ allowedCommands) : c ≠ [] := by
  obtain ⟨ys, d, rfl, _⟩ := allowed_shape h
  exact List.cons_ne_nil _ _

/-- The command is read first, whatever follows it behind a blank. -/
theorem split_command {c t : CodePoints} (hc : c ∈ allowedCommands)
    (ht : ∀ d ∈ t.head?, d = blankSign) :
    split lexer (c ++ t) = (split lexer t).map fun ws => c :: ws :=
  split_append (allowed_ne_nil hc) (allowed_plain hc) (boundary_of_blank ht)

/-- What comes of the rendering when it is stripped. -/
theorem strip_rendering_head {c : CodePoints} (hc : c ∈ allowedCommands)
    (ps : List (Piece CodePoint)) : ∃ t, CodePoints.strip (c ++ render lexer ps) = c ++ t ∧
      t <+: render lexer ps ∧ ∀ d ∈ t.head?, d = blankSign := by
  obtain ⟨qs, bs, z, rfl, hz, hstrip⟩ := strip_rendering hc ps
  have hpre : render lexer qs ++ z <+: render lexer (qs ++ bs.map .bare) := by
    have happ : render lexer (qs ++ bs.map .bare) = render lexer qs ++ render lexer (bs.map .bare) :=
      List.flatMap_append
    rw [happ]
    exact (List.prefix_append_right_inj _).mpr hz
  exact ⟨render lexer qs ++ z, hstrip, hpre, head?_of_prefix hpre (render_starts _)⟩

/-- The words of the stripped rendering are its words only if each of them fits and nothing was
stripped. -/
theorem rendered_exact {ws : List CodePoints} (hws : ∀ w ∈ ws, Passes w) {c : CodePoints}
    (hc : c ∈ allowedCommands)
    (h : split lexer (CodePoints.strip (c ++ render lexer ((shown ws).map pieceOf))) =
      .ok (c :: shown ws)) :
    (∀ w ∈ shown ws, (pieceOf w).Good lexer) ∧
      CodePoints.strip (c ++ render lexer ((shown ws).map pieceOf)) =
        c ++ render lexer ((shown ws).map pieceOf) := by
  obtain ⟨qs, bs, z, hps, hz, hstrip⟩ := strip_rendering hc ((shown ws).map pieceOf)
  have hrender : render lexer ((shown ws).map pieceOf) =
      render lexer qs ++ render lexer (bs.map .bare) := by
    rw [hps]
    exact List.flatMap_append
  have hzhead := head?_of_prefix hz (render_starts _)
  have hhead : ∀ d ∈ (render lexer qs ++ z).head?, d = blankSign := render_head hzhead
  have hwords : shown ws = qs.map Piece.word ++ bs := by
    have hmap := map_pieceOf_word (shown ws)
    rw [hps, List.map_append, List.map_map] at hmap
    rw [← hmap]
    congr 1
    exact List.map_id'' (fun _ => rfl) bs
  have hled : ∀ p ∈ qs ++ bs.map .bare, p.Led lexer := by
    rw [← hps]
    exact List.forall_mem_map.mpr fun w hw => pieceOf_led (hws w (mem_shown hw))
  rw [hstrip, split_command hc hhead] at h
  obtain ⟨found, hfound, heq⟩ := map_eq_ok h
  obtain rfl := (List.cons.inj heq).2
  rw [hwords] at hfound
  obtain ⟨_, hqs, hsplit⟩ := split_render_exact (fun p hp => hled p (List.mem_append_left _ hp))
    (hz.length_le.trans (length_render_bare bs).le) List.suffix_rfl
    (boundary_of_blank hhead) hfound
  have hneed := need_le (boundary_of_blank hzhead) hsplit
  obtain rfl : z = render lexer (bs.map .bare) :=
    hz.eq_of_length_le ((length_render_bare bs).le.trans hneed)
  obtain ⟨_, hbs, _⟩ : render lexer (bs.map .bare) = render lexer (bs.map .bare) ++ [] ∧
      (∀ p ∈ bs.map Piece.bare, p.Good lexer) ∧ split lexer [] = .ok [] :=
    split_render_exact (fun p hp => hled p (List.mem_append_right _ hp)) (Nat.zero_le _)
      (by rw [List.append_nil]) (boundary_of_blank hzhead)
      (by simpa [Function.comp_def, Piece.word] using hsplit)
  have hgood : ∀ p ∈ (shown ws).map pieceOf, p.Good lexer := by
    rw [hps]
    exact List.forall_mem_append.mpr ⟨hqs, hbs⟩
  exact ⟨List.forall_mem_map.mp hgood, by rw [hstrip, hrender]⟩

/-! ## The words behind the same flags and arguments -/

theorem perm_of_get? {flags flags' : Flags} (h : ∀ k, flags.get? k = flags'.get? k) :
    flags.rows.Perm flags'.rows := by
  rw [List.perm_ext_iff_of_nodup (List.Nodup.of_map _ flags.nodup)
    (List.Nodup.of_map _ flags'.nodup)]
  intro f
  rw [mem_rows, mem_rows, h]

theorem get?_of_rows {flags flags' : Flags} (h : ∀ f, f ∈ flags.rows ↔ f ∈ flags'.rows)
    (k : CodePoints) : flags.get? k = flags'.get? k := by
  ext f
  constructor
  · intro hf
    obtain rfl := Table.key_of_get? hf
    exact Table.get?_key ((h f).mp (Table.mem_of_get? hf))
  · intro hf
    obtain rfl := Table.key_of_get? hf
    exact Table.get?_key ((h f).mpr (Table.mem_of_get? hf))

theorem countP_split (p : CodePoint → Bool) (ws : List CodePoints) :
    ((ws.filterMap flag?).map flagWord).flatten.countP p + (argsOf ws).flatten.countP p =
      ws.flatten.countP p := by
  induction ws with
  | nil => rfl
  | cons w ws ih =>
    rw [argsOf] at ih ⊢
    cases hw : flag? w with
    | none =>
      rw [List.filterMap_cons_none hw, List.filter_cons_of_pos (by simp [hw]), List.flatten_cons,
        List.flatten_cons, List.countP_append, List.countP_append, ← ih]
      omega
    | some f =>
      rw [List.filterMap_cons_some hw, List.filter_cons_of_neg (by simp [hw]), List.map_cons,
        List.flatten_cons, List.flatten_cons, List.countP_append, List.countP_append, ← ih,
        ← (flag?_eq_some hw).1]
      omega

/-- The flags and the arguments have no sign that the words do not have. -/
theorem countP_words (p : CodePoint → Bool) (ws : List CodePoints) :
    ((flagsOf ws).rows.map flagWord).flatten.countP p + (argsOf ws).flatten.countP p ≤
      ws.flatten.countP p := by
  have hall := countP_split p ws
  obtain ⟨rows, hperm, hsub⟩ : (flagsOf ws).rows.Subperm (ws.filterMap flag?) :=
    Table.ofRows_subperm _
  have hle : (rows.map flagWord).flatten.countP p ≤
      ((ws.filterMap flag?).map flagWord).flatten.countP p :=
    (hsub.map flagWord).flatten.countP_le
  have heq : (rows.map flagWord).flatten.countP p =
      ((flagsOf ws).rows.map flagWord).flatten.countP p :=
    ((hperm.map flagWord).flatten).countP_eq p
  omega

theorem countP_shown (p : CodePoint → Bool) (ws : List CodePoints) :
    (shown ws).flatten.countP p =
      ((flagsOf ws).rows.map flagWord).flatten.countP p + (argsOf ws).flatten.countP p := by
  rw [← shown_eq, List.flatten_append, List.countP_append]
  congr 1
  exact (((sortedBy_perm Prod.fst (flagsOf ws).rows).map flagWord).flatten).countP_eq p

theorem argsOf_shown (ws : List CodePoints) : argsOf (shown ws) = argsOf ws := by
  have hflags : (sortedBy keyOf ((kept ws).filter fun w => (flag? w).isSome)).filter
      (fun w => (flag? w).isNone) = [] := by
    rw [List.filter_eq_nil_iff]
    intro w hw
    rw [mem_sortedBy] at hw
    have hsome := (List.mem_filter.mp hw).2
    rw [Option.isNone_iff_eq_none]
    intro hnone
    rw [hnone] at hsome
    cases hsome
  rw [shown, argsOf, List.filter_append, hflags, List.nil_append, argsOf, List.filter_filter]
  simp

theorem filterMap_shown (ws : List CodePoints) :
    (shown ws).filterMap flag? = sortedBy Prod.fst (flagsOf ws).rows := by
  have hargs : (argsOf ws).filterMap flag? = [] := by
    rw [List.filterMap_eq_nil_iff]
    exact fun w hw => Option.isNone_iff_eq_none.mp (List.mem_filter.mp hw).2
  have hflags : (sortedBy Prod.fst (flagsOf ws).rows).filterMap (flag? ∘ flagWord) =
      (sortedBy Prod.fst (flagsOf ws).rows).filterMap some :=
    List.filterMap_congr fun f hf => flag?_flagWord ((mem_sortedBy _ _ _).mp hf)
  rw [← shown_eq, List.filterMap_append, List.filterMap_map, hflags, List.filterMap_some, hargs,
    List.append_nil]

theorem sorted_keys_nodup (ws : List CodePoints) :
    ((sortedBy Prod.fst (flagsOf ws).rows).map Prod.fst).Nodup :=
  ((sortedBy_perm _ _).map Prod.fst).nodup_iff.mpr (flagsOf ws).nodup

theorem flagsOf_shown (ws : List CodePoints) (k : CodePoints) :
    (flagsOf (shown ws)).get? k = (flagsOf ws).get? k := by
  refine get?_of_rows (fun f => ?_) k
  rw [flagsOf, filterMap_shown, Table.rows_ofRows (sorted_keys_nodup ws), mem_sortedBy]

/-! ## The order of the words -/

def isSolid (c : CodePoint) : Bool := decide (c ∉ [blankSign, quoteSign, lexer.escape])

theorem keyChar_plain {c : CodePoint} (h : isKeyChar c = true) :
    lexer.plain c = true ∧ isSolid c = true ∧ c ≠ equalsSign := by
  have hne (d : CodePoint) (hd : isKeyChar d = false) : c ≠ d := by
    rintro rfl
    rw [h] at hd
    cases hd
  have hblank : c.val ∉ [32, 9, 13, 10] := by
    simp only [List.mem_cons, List.not_mem_nil, or_false, not_or]
    exact ⟨fun he => hne 32 (by decide) (Fin.ext he), fun he => hne 9 (by decide) (Fin.ext he),
      fun he => hne 13 (by decide) (Fin.ext he), fun he => hne 10 (by decide) (Fin.ext he)⟩
  have hcomment : c.val ≠ 35 := fun he => hne 35 (by decide) (Fin.ext he)
  have hquote := hne quoteSign (by decide)
  have hescape := hne lexer.escape (by decide)
  refine ⟨?_, ?_, hne equalsSign (by decide)⟩
  · have hend : lexer.ends c = false := by
      rw [Signs.ends, Bool.or_eq_false_iff]
      exact ⟨decide_eq_false hblank, decide_eq_false hcomment⟩
    rw [Signs.plain, hend]
    exact decide_eq_true ⟨hquote, hescape⟩
  · have hspace := hne blankSign (by decide)
    simp [isSolid, hspace, hquote, hescape]

theorem flagPiece_text (f : Flag) : ∃ r, (flagPiece f).text lexer = f.1 ++ equalsSign :: r := by
  rw [flagPiece]
  split
  · exact ⟨quoteSign :: (f.2 ++ [quoteSign]), by simp [Piece.text, lexer]⟩
  · exact ⟨f.2, rfl⟩

/-- A word that starts with a key is a flag. -/
theorem flag?_of_key {k v : CodePoints} (hdash : ¬ text "--" <+: k ++ equalsSign :: v)
    (hk : equalsSign ∉ k) : flag? (k ++ equalsSign :: v) = some (k, v) := by
  rw [flag?, if_neg hdash]
  exact splitFirst?_eq_some.mpr ⟨rfl, hk⟩

theorem not_dashed {c : CodePoint} {u : CodePoints} (hc : c ≠ 45) : ¬ text "--" <+: c :: u := by
  rintro ⟨r, hr⟩
  exact hc (List.cons.inj hr).1.symm

theorem argsOf_of_no_flag {ws : List CodePoints} (h : ws.filterMap flag? = []) : argsOf ws = ws := by
  rw [argsOf, List.filter_eq_self]
  intro w hw
  rw [Option.isNone_iff_eq_none]
  exact List.filterMap_eq_nil_iff.mp h w hw

theorem plain_of_key {k : CodePoints} (hk : k.all isKeyChar = true) : k.all lexer.plain = true :=
  List.all_eq_true.mpr fun c hc => (keyChar_plain (List.all_eq_true.mp hk c hc)).1

/-- What is read from a text that begins with a flag begins with its key. -/
theorem read_key {f : Flag} {r rest w : CodePoints} (hk : f.1.all isKeyChar = true)
    (h : readWord lexer .word (f.1 ++ equalsSign :: r) = .ok (w, rest)) :
    ∃ v, w = f.1 ++ equalsSign :: v := by
  have hplain : (f.1 ++ [equalsSign]).all lexer.plain = true := by
    rw [List.all_append, Bool.and_eq_true]
    exact ⟨plain_of_key hk, rfl⟩
  have hsplit : f.1 ++ equalsSign :: r = (f.1 ++ [equalsSign]) ++ r := by simp
  rw [hsplit, readWord_plain_append hplain] at h
  obtain ⟨found, _, heq⟩ := map_eq_ok h
  refine ⟨found.1, ?_⟩
  rw [← (Prod.mk.inj heq).1]
  simp

theorem skip_key {c : CodePoint} {u : CodePoints} (hc : isKeyChar c = true) :
    skip lexer false (blankSign :: c :: u) = c :: u :=
  (skip_space (s := lexer)).trans (skip_self (Signs.plain_inner (keyChar_plain hc).1))

/-- The end of a line in a key ends the word, and the next word is a flag without a key. -/
theorem key_unbroken {fs : List Flag} {c : CodePoint} {u r : CodePoints} {ws : List CodePoints}
    (hk : (c :: u).all isKeyChar = true) (hvalid : ∀ g ∈ fs, validKey g.1 = true)
    (hperm : (ws.filterMap flag?).Perm fs) :
    split lexer (blankSign :: (c :: u ++ newlineSign :: equalsSign :: r)) ≠ .ok ws := by
  intro h
  have hend : readWord lexer .word (newlineSign :: equalsSign :: r) =
      .ok ([], newlineSign :: equalsSign :: r) := by
    refine readWord_of_boundary fun d hd => ?_
    cases hd
    rfl
  have hskip := skip_key (u := u ++ newlineSign :: equalsSign :: r)
    (List.all_eq_true.mp hk c List.mem_cons_self)
  have hnext : skip lexer false (newlineSign :: equalsSign :: r) = equalsSign :: r := rfl
  have hsign : [equalsSign].all lexer.plain = true := rfl
  have hfound : ∃ v, equalsSign :: v ∈ ws := by
    cases ws with
    | nil =>
      rw [split_eq_nil, List.cons_append, hskip] at h
      cases h
    | cons w ws =>
      obtain ⟨rest, _, hr, hrest⟩ := split_eq_cons.mp h
      rw [List.cons_append, hskip, ← List.cons_append, readWord_plain_append (plain_of_key hk),
        hend] at hr
      cases hr
      cases ws with
      | nil =>
        rw [split_eq_nil, hnext] at hrest
        cases hrest
      | cons w' ws =>
        obtain ⟨rest', _, hr', _⟩ := split_eq_cons.mp hrest
        rw [hnext, ← List.singleton_append, readWord_plain_append hsign] at hr'
        obtain ⟨found, _, heq⟩ := map_eq_ok hr'
        obtain rfl : equalsSign :: found.1 = w' := (Prod.mk.inj heq).1
        exact ⟨found.1, List.mem_cons_of_mem _ List.mem_cons_self⟩
  obtain ⟨v, hv⟩ := hfound
  have hflag : flag? (equalsSign :: v) = some ([], v) :=
    flag?_of_key (not_dashed (by decide)) List.not_mem_nil
  have hempty : validKey [] = true :=
    hvalid _ (hperm.mem_iff.mp (List.mem_filterMap.mpr ⟨_, hv, hflag⟩))
  exact absurd hempty (by decide)

theorem flag?_of_valid {f : Flag} (h : f.1.all isKeyChar = true) (hne : f.1 ≠ []) :
    flag? (flagWord f) = some f := by
  obtain ⟨c, u, hcu⟩ := List.exists_cons_of_ne_nil hne
  refine flag?_of_key ?_ fun hmem => (keyChar_plain (List.all_eq_true.mp h _ hmem)).2.2 rfl
  rw [hcu, List.cons_append]
  refine not_dashed ?_
  rintro rfl
  rw [hcu] at h
  exact absurd (List.all_eq_true.mp h _ List.mem_cons_self) (by decide)

/-- The first word of a rendering that begins with a flag is that flag, if all flags that are read
are flags of the rendering. -/
theorem first_flag {f : Flag} {fs : List Flag} {r : CodePoints} {ws : List CodePoints}
    (hkeys : ((f :: fs).map Prod.fst).Nodup) (hvalid : ∀ g ∈ f :: fs, validKey g.1 = true)
    (hperm : (ws.filterMap flag?).Perm (f :: fs))
    (h : split lexer (blankSign :: (f.1 ++ equalsSign :: r)) = .ok ws) :
    f.1.all isKeyChar = true ∧ ∃ ws', ws = flagWord f :: ws' := by
  obtain ⟨c, u, hkey, hfront | hfront⟩ := validKey_front (hvalid f List.mem_cons_self)
  · have hall : f.1.all isKeyChar = true := hfront ▸ hkey
    cases ws with
    | nil => exact absurd hperm.length_eq (by simp)
    | cons w ws =>
      obtain ⟨rest, _, hr, _⟩ := split_eq_cons.mp h
      rw [hfront, List.cons_append, skip_key (List.all_eq_true.mp hkey c List.mem_cons_self),
        ← List.cons_append, ← hfront] at hr
      obtain ⟨v, rfl⟩ := read_key hall hr
      have hflag : flag? (f.1 ++ equalsSign :: v) = some (f.1, v) :=
        flag?_of_valid (f := (f.1, v)) hall (hfront ▸ List.cons_ne_nil c u)
      have hmem : (f.1, v) ∈ f :: fs :=
        hperm.mem_iff.mp (List.mem_filterMap.mpr ⟨_, List.mem_cons_self, hflag⟩)
      refine ⟨hall, ws, ?_⟩
      rcases List.mem_cons.mp hmem with heq | hmem
      · rw [← heq, flagWord]
      · exact absurd (List.mem_map_of_mem hmem) (List.nodup_cons.mp hkeys).1
  · have htext : f.1 ++ equalsSign :: r = c :: u ++ newlineSign :: equalsSign :: r := by
      rw [hfront]
      simp
    rw [htext] at h
    exact absurd h (key_unbroken hkey hvalid hperm)

/-- A reader stops at the blank in front of a flag, or behind the first sign of its key. -/
theorem rest_eq {g : Flag} {x rest : CodePoints} (hkey : validKey g.1 = true)
    (hsuffix : rest <:+ blankSign :: (g.1 ++ equalsSign :: x)) (hb : Boundary lexer rest)
    (hcount : (blankSign :: (g.1 ++ equalsSign :: x)).countP isSolid ≤ rest.countP isSolid) :
    rest = blankSign :: (g.1 ++ equalsSign :: x) := by
  obtain ⟨c, u, hall, hfront⟩ := validKey_front hkey
  obtain ⟨hplain, hsolid, _⟩ := keyChar_plain (List.all_eq_true.mp hall c List.mem_cons_self)
  obtain ⟨u', hu'⟩ : ∃ u', g.1 ++ equalsSign :: x = c :: u' := by
    rcases hfront with hfront | hfront
    · exact ⟨u ++ equalsSign :: x, by rw [hfront, List.cons_append]⟩
    · exact ⟨u ++ [newlineSign] ++ equalsSign :: x, by rw [hfront]; rfl⟩
  rw [hu'] at hsuffix hcount ⊢
  obtain ⟨e, he⟩ := hsuffix
  rw [← he, List.countP_append] at hcount
  cases e with
  | nil => exact he
  | cons d e =>
    obtain ⟨rfl, htail⟩ := List.cons.inj he
    cases e with
    | nil =>
      obtain rfl : rest = c :: u' := htail
      have hend := hb c rfl
      rw [Signs.plain_inner hplain] at hend
      cases hend
    | cons d' e =>
      obtain rfl : d' = c := (List.cons.inj htail).1
      rw [List.countP_cons_of_neg (by decide), List.countP_cons_of_pos hsolid] at hcount
      omega

/-- A flag that is read as its word leaves the flag behind it whole. -/
theorem behind_flag {f g : Flag} {x rest : CodePoints} (hf : validKey f.1 = true)
    (hg : validKey g.1 = true)
    (hne : skip lexer false
      (blankSign :: ((flagPiece f).text lexer ++ blankSign :: (g.1 ++ equalsSign :: x))) ≠ [])
    (h : readWord lexer .word (skip lexer false
      (blankSign :: ((flagPiece f).text lexer ++ blankSign :: (g.1 ++ equalsSign :: x)))) =
        .ok (flagWord f, rest))
    (hcount : (blankSign :: (g.1 ++ equalsSign :: x)).countP isSolid ≤ rest.countP isSolid) :
    rest = blankSign :: (g.1 ++ equalsSign :: x) := by
  refine rest_eq hg ?_ (readWord_boundary h) hcount
  have hb : Boundary lexer
      (blankSign :: ((flagPiece f).text lexer ++ blankSign :: (g.1 ++ equalsSign :: x))) :=
    boundary_of_blank (by simp)
  have hpiece := h
  rw [← flagPiece_word] at hpiece
  exact List.suffix_of_suffix_length_le ((readWord_suffix h).trans (skip_suffix false _))
    ((List.suffix_append _ _).trans (List.suffix_cons _ _))
    (piece_read (flagPiece_led hf) List.suffix_rfl hb hne hpiece).1

/-- The words that are read from as much of a rendering as has all its signs are its flags in
their order and then its arguments, if they are its flags and arguments in some order. -/
theorem flags_first {fs : List Flag} {t y : CodePoints} {ws : List CodePoints}
    (hkeys : (fs.map Prod.fst).Nodup) (hvalid : ∀ f ∈ fs, validKey f.1 = true)
    (hperm : (ws.filterMap flag?).Perm fs) (hpre : t <+: render lexer (fs.map flagPiece) ++ y)
    (hcount : (render lexer (fs.map flagPiece) ++ y).countP isSolid ≤ ws.flatten.countP isSolid)
    (h : split lexer t = .ok ws) : ws = fs.map flagWord ++ argsOf ws := by
  induction fs generalizing t ws with
  | nil => exact (argsOf_of_no_flag (List.perm_nil.mp hperm)).symm
  | cons f fs ih =>
    have hwhole : render lexer ((f :: fs).map flagPiece) ++ y =
        blankSign :: ((flagPiece f).text lexer ++ (render lexer (fs.map flagPiece) ++ y)) :=
      render_cons_append (flagPiece f) (fs.map flagPiece) y
    obtain ⟨cut, hcut⟩ := hpre
    have hread : ws.flatten.countP isSolid ≤ t.countP isSolid :=
      (split_countP rfl h).trans (skip_countP isSolid false t)
    have hlost : cut.countP isSolid = 0 := by
      rw [← hcut, List.countP_append] at hcount
      omega
    obtain ⟨r, hr⟩ := flagPiece_text f
    have hkey : t ++ cut = blankSign :: f.1 ++
        equalsSign :: (r ++ (render lexer (fs.map flagPiece) ++ y)) := by
      rw [hcut, hwhole, hr]
      simp
    obtain ⟨u, rfl, -⟩ := reaches_of_countP (by decide) hlost hkey
    obtain ⟨hall, ws, rfl⟩ := first_flag hkeys hvalid hperm h
    have hflag : flag? (flagWord f) = some f :=
      flag?_of_valid hall (validKey_chars (hvalid f List.mem_cons_self)).1
    rw [List.filterMap_cons_some hflag] at hperm
    have hperm := hperm.cons_inv
    have hargs : argsOf (flagWord f :: ws) = argsOf ws := by
      rw [argsOf, List.filter_cons_of_neg (by simp [hflag])]
      rfl
    rw [hargs, List.map_cons, List.cons_append]
    congr 1
    rw [List.map_cons, List.nodup_cons] at hkeys
    have hvalid_rest := fun g hg => hvalid g (List.mem_cons_of_mem f hg)
    cases fs with
    | nil => exact (argsOf_of_no_flag (List.perm_nil.mp hperm)).symm
    | cons g fs =>
      -- the rest begins with the next flag, since nothing in front of it can be left out
      obtain ⟨r', hr'⟩ := flagPiece_text g
      have hnext : (blankSign :: f.1 ++ equalsSign :: u) ++ cut =
          (blankSign :: ((flagPiece f).text lexer ++ blankSign :: g.1)) ++
            equalsSign :: (r' ++ (render lexer (fs.map flagPiece) ++ y)) := by
        rw [hcut, hwhole, List.map_cons, render_cons_append, hr']
        simp [lexer]
      obtain ⟨x, hx, hrest_cut⟩ := reaches_of_countP (by decide) hlost hnext
      have htext : blankSign :: f.1 ++ equalsSign :: u =
          blankSign :: ((flagPiece f).text lexer ++ blankSign :: (g.1 ++ equalsSign :: x)) := by
        rw [hx]
        simp
      rw [htext] at h hread
      obtain ⟨rest, hne, hword, hrest⟩ := split_eq_cons.mp h
      have hrender : render lexer ((f :: g :: fs).map flagPiece) ++ y = blankSign ::
          ((flagPiece f).text lexer ++ (render lexer ((g :: fs).map flagPiece) ++ y)) := hwhole
      have hfirst : ((flagPiece f).text lexer).countP isSolid = (flagWord f).countP isSolid := by
        rw [Piece.countP_text rfl, flagPiece_word]
      rw [hrender, List.countP_cons_of_neg (by decide), List.countP_append, hfirst] at hcount
      have hwords : (flagWord f :: ws).flatten.countP isSolid =
          (flagWord f).countP isSolid + ws.flatten.countP isSolid := List.countP_append
      have hcount_rest : (render lexer ((g :: fs).map flagPiece) ++ y).countP isSolid ≤
          ws.flatten.countP isSolid := by omega
      have hwhole_rest : (blankSign :: (g.1 ++ equalsSign :: x)) ++ cut =
          render lexer ((g :: fs).map flagPiece) ++ y := by
        have hsplit : (g.1 ++ equalsSign :: r') ++ (render lexer (fs.map flagPiece) ++ y) =
            g.1 ++ equalsSign :: (x ++ cut) := by
          rw [hrest_cut]
          simp
        rw [List.map_cons, render_cons_append, hr', hsplit]
        simp [lexer]
      have hrest_eq : rest = blankSign :: (g.1 ++ equalsSign :: x) := by
        refine behind_flag (hvalid f List.mem_cons_self) (hvalid_rest g List.mem_cons_self) hne
          hword ?_
        have hread_rest : ws.flatten.countP isSolid ≤ rest.countP isSolid :=
          (split_countP rfl hrest).trans (skip_countP isSolid false rest)
        rw [← hwhole_rest, List.countP_append] at hcount_rest
        omega
      subst hrest_eq
      exact ih hkeys.2 hvalid_rest hperm ⟨cut, hwhole_rest⟩ hcount_rest hrest

theorem eq_of_sublist {p : CodePoint → Bool} {xs ys : List CodePoints} (h : xs.Sublist ys)
    (hpos : ∀ y ∈ ys, 0 < y.countP p) (hcount : ys.flatten.countP p ≤ xs.flatten.countP p) :
    xs = ys := by
  induction h with
  | slnil => rfl
  | cons y h _ =>
    have hle := h.flatten.countP_le (p := p)
    have hy := hpos y List.mem_cons_self
    rw [List.flatten_cons, List.countP_append] at hcount
    omega
  | cons_cons y h ih =>
    rw [List.flatten_cons, List.flatten_cons, List.countP_append, List.countP_append] at hcount
    rw [ih (fun z hz => hpos z (List.mem_cons_of_mem y hz)) (by omega)]

/-- No flag was overwritten if the signs of the words are all in what came of them. -/
theorem flags_perm {ws : List CodePoints} (hcount : ws.flatten.countP isSolid ≤
      ((flagsOf ws).rows.map flagWord).flatten.countP isSolid +
        (argsOf ws).flatten.countP isSolid) :
    (ws.filterMap flag?).Perm (flagsOf ws).rows := by
  obtain ⟨rows, hperm, hsub⟩ : (flagsOf ws).rows.Subperm (ws.filterMap flag?) :=
    Table.ofRows_subperm _
  have hrows := ((hperm.map flagWord).flatten).countP_eq isSolid
  have hall := countP_split isSolid ws
  have hpos : ∀ y ∈ (ws.filterMap flag?).map flagWord, 0 < y.countP isSolid := by
    intro y hy
    obtain ⟨f, _, rfl⟩ := List.mem_map.mp hy
    exact List.countP_pos_iff.mpr ⟨equalsSign, by simp [flagWord], by decide⟩
  have heq := eq_of_sublist (hsub.map flagWord) hpos (by omega)
  have hlen := congrArg List.length heq
  rw [List.length_map, List.length_map] at hlen
  rw [← hsub.eq_of_length hlen]
  exact hperm

/-- A reader that finds the flags and the arguments of the words in their rendering finds the words
as they are shown. -/
theorem reread_words {c first : CodePoints} {ws found : List CodePoints}
    (hc : c ∈ allowedCommands) (hws : ∀ w ∈ ws, Passes w)
    (h : split lexer (CodePoints.strip (c ++ render lexer ((shown ws).map pieceOf))) =
      .ok (first :: found))
    (hargs : argsOf found = argsOf ws)
    (hflags : ∀ k, (flagsOf found).get? k = (flagsOf ws).get? k) :
    first = c ∧ found = shown ws := by
  obtain ⟨t, hstrip, hpre, hhead⟩ := strip_rendering_head hc ((shown ws).map pieceOf)
  rw [hstrip, split_command hc hhead] at h
  obtain ⟨_, hfound, heq⟩ := map_eq_ok h
  obtain ⟨hfirst, rfl⟩ := List.cons.inj heq.symm
  refine ⟨hfirst, ?_⟩
  have hrows := perm_of_get? hflags
  have hcount : (render lexer ((shown ws).map pieceOf)).countP isSolid =
      ((flagsOf found).rows.map flagWord).flatten.countP isSolid +
        (argsOf found).flatten.countP isSolid := by
    rw [countP_render rfl rfl, map_pieceOf_word, countP_shown, hargs,
      ((hrows.map flagWord).flatten).countP_eq isSolid]
  have hread : found.flatten.countP isSolid ≤
      (render lexer ((shown ws).map pieceOf)).countP isSolid :=
    (split_countP rfl hfound).trans
      ((skip_countP isSolid false t).trans hpre.sublist.countP_le)
  have hperm := (flags_perm (hread.trans hcount.le)).trans
    (hrows.trans (sortedBy_perm Prod.fst (flagsOf ws).rows).symm)
  have hrender : render lexer ((shown ws).map pieceOf) =
      render lexer ((sortedBy Prod.fst (flagsOf ws).rows).map flagPiece) ++
        render lexer ((argsOf ws).map pieceOf) := by
    rw [← shown_eq, List.map_append, List.map_map]
    have hpieces : (sortedBy Prod.fst (flagsOf ws).rows).map (pieceOf ∘ flagWord) =
        (sortedBy Prod.fst (flagsOf ws).rows).map flagPiece := by
      refine List.map_congr_left fun f hf => ?_
      rw [Function.comp_apply, pieceOf, flag?_flagWord ((mem_sortedBy _ _ _).mp hf)]
      rfl
    rw [hpieces]
    exact List.flatMap_append
  have hvalid : ∀ f ∈ sortedBy Prod.fst (flagsOf ws).rows, validKey f.1 = true := by
    intro f hf
    obtain ⟨w, hw, hflag⟩ := List.mem_filterMap.mp (mem_flagsOf.mp ((mem_sortedBy _ _ _).mp hf))
    exact (hws w (mem_kept hw) f hflag).1
  have hle := hcount.le.trans (countP_words isSolid found)
  rw [hrender] at hpre hle
  rw [flags_first (sorted_keys_nodup ws) hvalid hperm hpre hle hfound, hargs, shown_eq]

/-! ## The rendering is kept -/

/-- The words behind the command of a text. -/
def argWords (raw : CodePoints) : List CodePoints :=
  match split lexer (CodePoints.strip raw) with
  | .ok (_ :: ws) => ws
  | _ => []

/-- Words whose rendering has the quotes that it needs, no pattern that is denied, and no white
space at its end. -/
structure Renderable (ws : List CodePoints) : Prop where
  good : ∀ w ∈ shown ws, (pieceOf w).Good lexer
  clean : ∀ p : DenyPattern, ∀ w ∈ shown ws, p.found w = false
  last : ∀ w ∈ (shown ws).getLast?, ∀ d ∈ ((pieceOf w).text lexer).getLast?, isSpace d = false

/-- The suggestion as it is rendered. -/
def rendered (lower : LowerCase) (deny : DenySet) (raw : CodePoints) : CodePoints :=
  (validateSuggestion lower deny raw).toString

/-- The rendering of a suggestion is safe, and the firewall and the router find in it what the
firewall found in the suggestion. -/
structure Agrees (lower : LowerCase) (deny : DenySet) (raw : CodePoints) : Prop where
  safe : (validateSuggestion lower deny (rendered lower deny raw)).isSafe = true
  command : (validateSuggestion lower deny (rendered lower deny raw)).command =
    (validateSuggestion lower deny raw).command
  args : (validateSuggestion lower deny (rendered lower deny raw)).args =
    (validateSuggestion lower deny raw).args
  flags : ∀ k, (validateSuggestion lower deny (rendered lower deny raw)).flags.get? k =
    (validateSuggestion lower deny raw).flags.get? k
  router : ∃ ws, routerParts lower (rendered lower deny raw) =
      .ok ((validateSuggestion lower deny raw).command, ws) ∧
    argsOf ws = (validateSuggestion lower deny raw).args ∧
    ∀ k, (flagsOf ws).get? k = (validateSuggestion lower deny raw).flags.get? k

theorem strip_command {c : CodePoints} (hc : c ∈ allowedCommands) (x : CodePoints) :
    CodePoints.strip (c ++ x) = c ++ x.rdropWhile isSpace := by
  obtain ⟨ys, d, rfl, hd⟩ := allowed_shape hc
  have hstrip : CodePoints.strip (47 :: (ys ++ d :: x)) = 47 :: (ys ++ d :: x.rdropWhile isSpace) :=
    PyText.stripWhere_delimited (by decide) hd ys x
  simpa using hstrip

/-- Nothing is stripped from good pieces if and only if the last of them has no white space at its
end. -/
theorem strip_good {c : CodePoints} (hc : c ∈ allowedCommands) {ps : List (Piece CodePoint)}
    (hgood : ∀ p ∈ ps, p.Good lexer) :
    CodePoints.strip (c ++ render lexer ps) = c ++ render lexer ps ↔
      ∀ p ∈ ps.getLast?, ∀ d ∈ (p.text lexer).getLast?, isSpace d = false := by
  rw [strip_command hc, List.append_cancel_left_eq, List.rdropWhile_eq_self_iff]
  rcases List.eq_nil_or_concat' ps with rfl | ⟨ps, p, rfl⟩
  · simp [render]
  · obtain ⟨a, u, hau, _⟩ := Piece.text_inner (hgood p (by simp))
    have hne : p.text lexer ≠ [] := hau ▸ List.cons_ne_nil a u
    obtain ⟨e, d, he⟩ := (List.eq_nil_or_concat' (p.text lexer)).resolve_left hne
    have hrender : render lexer (ps ++ [p]) = (render lexer ps ++ blankSign :: e) ++ [d] := by
      rw [render, List.flatMap_append, List.flatMap_singleton, he, List.append_assoc]
      rfl
    simp [hrender, he]

theorem strip_shown {c : CodePoints} (hc : c ∈ allowedCommands) {ws : List CodePoints}
    (hgood : ∀ w ∈ shown ws, (pieceOf w).Good lexer) :
    CodePoints.strip (c ++ render lexer ((shown ws).map pieceOf)) =
        c ++ render lexer ((shown ws).map pieceOf) ↔
      ∀ w ∈ (shown ws).getLast?, ∀ d ∈ ((pieceOf w).text lexer).getLast?, isSpace d = false := by
  have hpieces : ∀ p ∈ (shown ws).map pieceOf, p.Good lexer := List.forall_mem_map.mpr hgood
  rw [strip_good hc hpieces, List.getLast?_map]
  cases (shown ws).getLast? <;> simp

theorem literal_ne_nil (p : DenyPattern) : p.literal ≠ [] := by cases p <;> decide

theorem infix_pieceOf {p : DenyPattern} {w : CodePoints} (h : p.literal <:+: w) :
    p.literal <:+: (pieceOf w).text lexer := by
  cases hf : flag? w with
  | none =>
    rw [pieceOf, hf]
    exact h
  | some f =>
    obtain ⟨rfl, _⟩ := flag?_eq_some hf
    have hequals : equalsSign ∉ p.literal := fun hmem => (literal_char hmem).2.2 (by decide)
    rw [pieceOf, hf, Option.elim_some]
    obtain hkey | hvalue := infix_of_append_cons hequals h
    · obtain ⟨r, hr⟩ := flagPiece_text f
      rw [hr]
      exact hkey.trans (List.prefix_append _ _).isInfix
    · rw [flagPiece]
      split
      · exact hvalue.trans ⟨f.1 ++ [equalsSign, quoteSign], [quoteSign], by simp [Piece.text, lexer]⟩
      · exact h

/-- A pattern is found in a rendering if and only if it is found in a word. -/
theorem found_rendering {c : CodePoints} (hc : c ∈ allowedCommands) (ws : List CodePoints)
    (p : DenyPattern) : p.found (c ++ render lexer (ws.map pieceOf)) = true ↔
      ∃ w ∈ ws, p.found w = true := by
  simp only [DenyPattern.found, decide_eq_true_eq]
  constructor
  · intro h
    have hrender : p.literal <:+: render lexer (.bare c :: ws.map pieceOf) := by
      rw [render_cons]
      exact h.trans (List.suffix_cons _ _).isInfix
    obtain ⟨q, hq, hfound⟩ := infix_render (literal_ne_nil p)
      (fun hmem => (literal_char hmem).2.2 (by decide))
      (fun hmem => (literal_char hmem).2.2 (by decide)) hrender
    rcases List.mem_cons.mp hq with rfl | hq
    · obtain ⟨d, hd⟩ := List.exists_mem_of_ne_nil _ (literal_ne_nil p)
      have hcommand := List.all_eq_true.mp (allowed_chars hc) d (hfound.mem hd)
      rw [(literal_char hd).1] at hcommand
      cases hcommand
    · obtain ⟨w, hw, rfl⟩ := List.mem_map.mp hq
      rw [pieceOf_word] at hfound
      exact ⟨w, hw, hfound⟩
  · rintro ⟨w, hw, hfound⟩
    obtain ⟨before, after, rfl⟩ := List.append_of_mem hw
    refine (infix_pieceOf hfound).trans
      ⟨c ++ render lexer (before.map pieceOf) ++ [blankSign], render lexer (after.map pieceOf), ?_⟩
    simp [render, lexer]

section Rendering
variable {lower : LowerCase} {deny : DenySet} {raw c : CodePoints} {ws : List CodePoints}

theorem split_renderable (hc : c ∈ allowedCommands) (h : Renderable ws) :
    split lexer (c ++ render lexer ((shown ws).map pieceOf)) = .ok (c :: shown ws) := by
  have hpieces : ∀ p ∈ (shown ws).map pieceOf, p.Good lexer := List.forall_mem_map.mpr h.good
  have hsplit := split_render hpieces (z := []) (v := []) (by intro d hd; cases hd) rfl
  rw [List.append_nil, map_pieceOf_word, List.append_nil] at hsplit
  rw [split_command hc (render_starts _), hsplit]
  rfl

theorem safe_of_renderable (hc : c ∈ allowedCommands) (hws : ∀ w ∈ ws, Passes w)
    (h : Renderable ws) :
    Safe lower deny (c ++ render lexer ((shown ws).map pieceOf)) c (shown ws) := by
  have hstrip := (strip_shown hc h.good).mpr h.last
  refine ⟨fun p => ?_, ?_, ?_, fun w hw => hws w (mem_shown hw)⟩
  · rw [hstrip, Bool.eq_false_iff]
    intro hfound
    obtain ⟨w, hw, hfound⟩ := (found_rendering hc _ p).mp hfound
    rw [h.clean p w hw] at hfound
    cases hfound
  · rw [hstrip]
    exact split_renderable hc h
  · rw [lower_allowed hc]
    exact hc

/-- The router reads what the firewall reads, since there is no comment. -/
theorem router_of_renderable (hc : c ∈ allowedCommands) (h : Renderable ws) :
    routerParts lower (c ++ render lexer ((shown ws).map pieceOf)) = .ok (c, shown ws) := by
  have hcount : (c ++ render lexer ((shown ws).map pieceOf)).countP lexer.comment ≤
      (c :: shown ws).flatten.countP lexer.comment := by
    rw [List.countP_append, countP_render rfl rfl, map_pieceOf_word, List.flatten_cons,
      List.countP_append]
  have hrouter : split routerLexer (c ++ render lexer ((shown ws).map pieceOf)) =
      .ok (c :: shown ws) := split_uncommented (split_renderable hc h) hcount
  rw [routerParts, (strip_shown hc h.good).mpr h.last, hrouter]
  simp only [lower_allowed hc]

/-- What is rendered of a safe suggestion is read back as it was validated if and only if its words
are renderable. -/
theorem rendering_agrees_iff (h : (validateSuggestion lower deny raw).isSafe = true) :
    Agrees lower deny raw ↔ Renderable (argWords raw) := by
  obtain ⟨first, ws, hsafe⟩ := validate_isSafe.mp h
  have hwords : argWords raw = ws := by rw [argWords, hsafe.words]
  have hvalid := validate_of_safe hsafe
  have htext : rendered lower deny raw =
      lower.apply first ++ render lexer ((shown ws).map pieceOf) := by
    rw [rendered, hvalid]
    exact toString_eq rfl rfl
  rw [hwords]
  constructor
  · intro hagrees
    obtain ⟨first', found, hread⟩ := validate_isSafe.mp hagrees.safe
    have hargs := hagrees.args
    have hflags := hagrees.flags
    rw [validate_of_safe hread, hvalid] at hargs hflags
    have hsplit := hread.words
    rw [htext] at hsplit
    obtain ⟨rfl, rfl⟩ := reread_words hsafe.allowed hsafe.passes hsplit hargs hflags
    obtain ⟨hgood, hstrip⟩ := rendered_exact hsafe.passes hsafe.allowed hsplit
    refine ⟨hgood, fun p w hw => ?_, (strip_shown hsafe.allowed hgood).mp hstrip⟩
    have hclean := hread.clean p
    rw [htext, hstrip, Bool.eq_false_iff] at hclean
    rw [Bool.eq_false_iff]
    exact fun hfound => hclean ((found_rendering hsafe.allowed _ p).mpr ⟨w, hw, hfound⟩)
  · intro hr
    have hpass : Safe lower deny (rendered lower deny raw) (lower.apply first) (shown ws) := by
      rw [htext]
      exact safe_of_renderable hsafe.allowed hsafe.passes hr
    have hread := validate_of_safe hpass
    rw [lower_allowed hsafe.allowed] at hread
    have hrouter : routerParts lower (rendered lower deny raw) =
        .ok (lower.apply first, shown ws) := by
      rw [htext]
      exact router_of_renderable hsafe.allowed hr
    refine ⟨by rw [hread], by rw [hread, hvalid], ?_, fun k => ?_, shown ws, ?_, ?_, fun k => ?_⟩
    · rw [hread, hvalid]
      exact argsOf_shown ws
    · rw [hread, hvalid]
      exact flagsOf_shown ws k
    · rw [hrouter, hvalid]
    · rw [hvalid]
      exact argsOf_shown ws
    · rw [hvalid]
      exact flagsOf_shown ws k

end Rendering

def asciiLower : LowerCase := ⟨CodePoints.lower, fun _ _ => rfl⟩

def denyPatterns : DenySet where
  order := [.semicolon, .backtick, .substitution, .pipe]
  all p := by cases p <;> decide

def templateSuggestion : CodePoints :=
  text "/run my-template prompt=\"foo bar\" --approval size=1024"

theorem rendering_agrees_template : Agrees asciiLower denyPatterns templateSuggestion := by
  have hlast : (shown (argWords templateSuggestion)).getLast? = some (text "--approval") := by
    decide +kernel
  have hend : ((pieceOf (text "--approval")).text lexer).getLast? = some 108 := by decide +kernel
  refine (rendering_agrees_iff (by decide +kernel)).mpr
    ⟨by decide +kernel, fun p => by cases p <;> decide +kernel, fun w hw d hd => ?_⟩
  rw [hlast] at hw
  cases hw
  rw [hend] at hd
  cases hd
  decide +kernel

/-- An argument with a blank in it is safe, and is two arguments where it is rendered. -/
theorem quoted_argument_splits :
    (validateSuggestion asciiLower denyPatterns (text "/run \"a b\"")).isSafe = true ∧
      ¬ Agrees asciiLower denyPatterns (text "/run \"a b\"") :=
  ⟨by decide +kernel, fun h => absurd h.args (by decide +kernel)⟩

end OpenClaw.Connector.Firewall
