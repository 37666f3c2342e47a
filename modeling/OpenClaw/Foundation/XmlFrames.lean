import OpenClaw.Foundation.XmlRead

/-!
# Open elements

One token opens an element, adds to the one on top, or closes it. From this: what becomes of the two
elements at the bottom of the stack in a run of tokens.
-/

namespace Foundation.Xml

set_option autoImplicit false

theorem textLength_append (xs ys : List Token) :
    textLength (xs ++ ys) = textLength xs + textLength ys := by
  simp [textLength]

theorem textLength_cons (t : Token) (ts : List Token) :
    textLength (t :: ts) = t.text.length + textLength ts := by
  simp [textLength]

theorem costOf_append (xs ys : List Token) : costOf (xs ++ ys) = costOf xs + costOf ys := by
  simp [costOf]

theorem costOf_cons (t : Token) (ts : List Token) : costOf (t :: ts) = t.cost + costOf ts := by
  simp [costOf]

/-- The frame has got more text or children, or is the same. -/
structure Frame.Grows (f f' : Frame) (text : ℕ) : Prop where
  tag : f'.tag = f.tag
  text : f'.text.length ≤ f.text.length + text
  children : f.children <+: f'.children

theorem Frame.addText_grows (f : Frame) (cs : List Char) : f.Grows (f.addText cs) cs.length := by
  unfold Frame.addText
  split
  · exact ⟨rfl, by simp, List.prefix_refl _⟩
  · exact ⟨rfl, Nat.le_add_right _ _, List.prefix_refl _⟩

theorem Frame.addChild_grows (f : Frame) (e : Element) (n : ℕ) : f.Grows (f.addChild e) n :=
  ⟨rfl, Nat.le_add_right _ _, List.prefix_append _ _⟩

/-- A token opens an element, adds to the top one, or closes it. -/
theorem feed_cases {top : Frame} {rest : List Frame} {token : Token} {next : Progress}
    (h : feed (.inside top rest) token = some next) :
    (∃ tag, token = .start tag ∧ next = .inside { tag } (top :: rest)) ∨
      (∃ top', next = .inside top' rest ∧ top.Grows top' token.text.length) ∨
        (token = .stop top.tag ∧ next = complete top.close rest) := by
  cases token with
  | start tag =>
    cases h
    exact .inl ⟨tag, rfl, rfl⟩
  | empty tag =>
    cases h
    exact .inr (.inl ⟨_, rfl, top.addChild_grows _ _⟩)
  | stop tag =>
    rw [feed] at h
    split at h
    · rename_i htag
      cases h
      exact .inr (.inr ⟨by rw [htag], rfl⟩)
    · cases h
  | other =>
    cases h
    exact .inr (.inl ⟨top, rfl, rfl, Nat.le_add_right _ _, List.prefix_refl _⟩)
  | literal c =>
    cases h
    exact .inr (.inl ⟨_, rfl, top.addText_grows _⟩)
  | reference c =>
    cases h
    exact .inr (.inl ⟨_, rfl, top.addText_grows _⟩)
  | cdata text =>
    cases h
    exact .inr (.inl ⟨_, rfl, top.addText_grows _⟩)

theorem feed_after {root : Element} {token : Token} {next : Progress}
    (h : feed (.after root) token = some next) : next = .after root := by
  cases token with
  | literal c =>
    unfold feed at h
    dsimp only at h
    split at h
    · exact (Option.some.inj h).symm
    · cases h
  | other => exact (Option.some.inj h).symm
  | start _ => cases h
  | stop _ => cases h
  | empty _ => cases h
  | reference _ => cases h
  | cdata _ => cases h

theorem feedAll_after {tokens : List Token} {root : Element} {next : Progress}
    (h : feedAll (.after root) tokens = some next) : next = .after root := by
  induction tokens with
  | nil => exact (Option.some.inj h).symm
  | cons token tokens ih =>
    obtain ⟨q, hq, h⟩ := Option.bind_eq_some_iff.mp h
    rw [feed_after hq] at h
    exact ih h

/-! ## The two elements at the bottom -/

section Runs
variable {top t b : Frame} {rest r : List Frame}

/-- The element on the root stays open, or there is a token that closes it. -/
theorem run_close {tokens : List Token} (pre : List Frame) {a : Frame}
    (hframes : top :: rest = pre ++ [a, b])
    (h : feedAll (.inside top rest) tokens = some (.inside t r)) :
    (∃ (pre' : List Frame) (a' : Frame), t :: r = pre' ++ [a', b] ∧ a'.tag = a.tag) ∨
      ∃ (u v : List Token) (a' : Frame), tokens = u ++ .stop a.tag :: v ∧ a'.tag = a.tag ∧
        a'.text.length ≤ a.text.length + textLength u ∧
        feedAll (.inside (b.addChild a'.close) []) v = some (.inside t r) := by
  induction tokens generalizing top rest pre a with
  | nil =>
    cases h
    exact .inl ⟨pre, a, hframes, rfl⟩
  | cons token tokens ih =>
    obtain ⟨next, hnext, h⟩ := Option.bind_eq_some_iff.mp h
    -- the element, grown by this token, is still open; the rest of the run is known
    have hgo : ∀ {top' : Frame} {rest' : List Frame} (pre' : List Frame) {a' : Frame},
        next = .inside top' rest' → top' :: rest' = pre' ++ [a', b] → a'.tag = a.tag →
        a'.text.length ≤ a.text.length + token.text.length →
        (∃ (pre' : List Frame) (a' : Frame), t :: r = pre' ++ [a', b] ∧ a'.tag = a.tag) ∨
          ∃ (u v : List Token) (a' : Frame), token :: tokens = u ++ .stop a.tag :: v ∧
            a'.tag = a.tag ∧ a'.text.length ≤ a.text.length + textLength u ∧
            feedAll (.inside (b.addChild a'.close) []) v = some (.inside t r) := by
      intro top' rest' pre' a' heq hframes' htag htext
      rw [heq] at h
      rcases ih pre' hframes' h with ⟨pre'', a'', hfinal, htag'⟩ | ⟨u, v, a'', rfl, htag', htext', hrun⟩
      · exact .inl ⟨pre'', a'', hfinal, htag'.trans htag⟩
      · refine .inr ⟨token :: u, v, a'', by rw [htag]; rfl, htag'.trans htag, ?_, hrun⟩
        rw [textLength_cons]
        omega
    rcases feed_cases hnext with ⟨tag, -, rfl⟩ | ⟨top', rfl, hgrows⟩ | ⟨htoken, rfl⟩
    · exact hgo ({ tag } :: pre) rfl (by rw [hframes]; rfl) rfl (Nat.le_add_right _ _)
    · cases pre with
      | nil =>
        obtain ⟨rfl, rfl⟩ := List.cons.inj hframes
        exact hgo [] rfl rfl hgrows.tag hgrows.text
      | cons p pre =>
        obtain ⟨rfl, rfl⟩ := List.cons.inj hframes
        exact hgo (top' :: pre) rfl rfl rfl (Nat.le_add_right _ _)
    · cases pre with
      | nil =>
        obtain ⟨rfl, rfl⟩ := List.cons.inj hframes
        exact .inr ⟨[], tokens, top, by rw [htoken]; rfl, rfl, Nat.le_add_right _ _, h⟩
      | cons p pre =>
        obtain ⟨rfl, rfl⟩ := List.cons.inj hframes
        cases pre with
        | nil => exact hgo [] rfl rfl rfl (Nat.le_add_right _ _)
        | cons p' pre => exact hgo (p'.addChild _ :: pre) rfl rfl rfl (Nat.le_add_right _ _)

/-- The root keeps its tag and its children. -/
theorem run_bottom {tokens : List Token} (pre : List Frame) (hframes : top :: rest = pre ++ [b])
    (h : feedAll (.inside top rest) tokens = some (.inside t r)) :
    ∃ (pre' : List Frame) (g : Frame), t :: r = pre' ++ [g] ∧ g.tag = b.tag ∧
      b.children <+: g.children := by
  induction tokens generalizing top rest pre b with
  | nil =>
    cases h
    exact ⟨pre, b, hframes, rfl, List.prefix_refl _⟩
  | cons token tokens ih =>
    obtain ⟨next, hnext, h⟩ := Option.bind_eq_some_iff.mp h
    rcases feed_cases hnext with ⟨tag, -, rfl⟩ | ⟨top', rfl, hgrows⟩ | ⟨-, rfl⟩
    · exact ih ({ tag } :: pre) (by rw [hframes]; rfl) h
    · cases pre with
      | nil =>
        obtain ⟨rfl, rfl⟩ := List.cons.inj hframes
        obtain ⟨pre', g, hfinal, htag, hchildren⟩ := ih [] rfl h
        exact ⟨pre', g, hfinal, htag.trans hgrows.tag, hgrows.children.trans hchildren⟩
      | cons p pre =>
        obtain ⟨rfl, rfl⟩ := List.cons.inj hframes
        exact ih (top' :: pre) rfl h
    · cases pre with
      | nil =>
        obtain ⟨rfl, rfl⟩ := List.cons.inj hframes
        cases feedAll_after h
      | cons p pre =>
        obtain ⟨rfl, rfl⟩ := List.cons.inj hframes
        cases pre with
        | nil =>
          obtain ⟨pre', g, hfinal, htag, hchildren⟩ := ih [] rfl h
          exact ⟨pre', g, hfinal, htag, (List.prefix_append _ _).trans hchildren⟩
        | cons p' pre => exact ih (p'.addChild _ :: pre) rfl h

end Runs

/-- An element that is open on the root has been opened, and its text was read since. -/
theorem run_open {tokens : List Token} {b t : Frame} {r : List Frame} (pre : List Frame)
    {q g : Frame}
    (h : feedAll (.inside b []) tokens = some (.inside t r)) (hframes : t :: r = pre ++ [q, g]) :
    ∃ u v, tokens = u ++ .start q.tag :: v ∧ q.text.length ≤ textLength v := by
  induction tokens using List.reverseRecOn generalizing t r pre q with
  | nil =>
    cases h
    have hlength := congrArg List.length hframes
    simp at hlength
  | append_singleton tokens token ih =>
    rw [feedAll_append] at h
    obtain ⟨s, hs, h⟩ := Option.bind_eq_some_iff.mp h
    rw [feedAll] at h
    obtain ⟨next, hnext, h⟩ := Option.bind_eq_some_iff.mp h
    cases h
    have hgo : ∀ {t' : Frame} {r' : List Frame} (pre' : List Frame) {q' : Frame},
        s = .inside t' r' → t' :: r' = pre' ++ [q', g] →
        q.tag = q'.tag → q.text.length ≤ q'.text.length + token.text.length →
        ∃ u v, tokens ++ [token] = u ++ .start q.tag :: v ∧ q.text.length ≤ textLength v := by
      intro t' r' pre' q' heq hframes' htag htext
      rw [heq] at hs
      obtain ⟨u, v, rfl, hv⟩ := ih pre' hs hframes'
      refine ⟨u, v ++ [token], by rw [htag]; simp, ?_⟩
      rw [textLength_append, textLength_cons]
      omega
    cases s with
    | before =>
      cases token with
      | start tag =>
        cases hnext
        have hlength := congrArg List.length hframes
        simp at hlength
      | literal c =>
        unfold feed at hnext
        dsimp only at hnext
        split at hnext
        · cases hnext
        · cases hnext
      | stop _ => cases hnext
      | empty _ => cases hnext
      | reference _ => cases hnext
      | cdata _ => cases hnext
      | other => cases hnext
    | after root => cases feed_after hnext
    | inside t' r' =>
      rcases feed_cases hnext with ⟨tag, rfl, hnext'⟩ | ⟨top', hnext', hgrows⟩ | ⟨-, hnext'⟩
      · cases hnext'
        cases pre with
        | nil =>
          obtain ⟨rfl, -⟩ := List.cons.inj hframes
          exact ⟨tokens, [], rfl, Nat.le_refl _⟩
        | cons p pre =>
          exact hgo _ rfl (List.cons.inj hframes).2 rfl (Nat.le_add_right _ _)
      · cases hnext'
        cases pre with
        | nil =>
          obtain ⟨rfl, rfl⟩ := List.cons.inj hframes
          exact hgo [] rfl rfl hgrows.tag hgrows.text
        | cons p pre =>
          obtain ⟨rfl, rfl⟩ := List.cons.inj hframes
          exact hgo (t' :: pre) rfl rfl rfl (Nat.le_add_right _ _)
      · cases r' with
        | nil => cases hnext'
        | cons parent r' =>
          cases hnext'
          cases pre with
          | nil =>
            obtain ⟨rfl, rfl⟩ := List.cons.inj hframes
            exact hgo [t'] rfl rfl rfl (Nat.le_add_right _ _)
          | cons p pre =>
            obtain ⟨rfl, rfl⟩ := List.cons.inj hframes
            exact hgo (t' :: parent :: pre) rfl rfl rfl (Nat.le_add_right _ _)

end Foundation.Xml
