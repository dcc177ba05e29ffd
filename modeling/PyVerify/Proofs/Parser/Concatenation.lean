import PyVerify.Proofs.Parser.Tracks.Splice

namespace PyVerify

open Token (Kind EndsLine)

variable {α : Type} {c d e e' : Cursor} {i j k l m n : Nat} {more : List Kind} {tokens us : List Token}

namespace Parser

section

variable {step : Parser (Option α)} {a : α} {as : List α}

theorem repeatUpTo_congr (h : step c = step d) : repeatUpTo step (n + 1) c = repeatUpTo step (n + 1) d := by
  change (step c >>= _) = (step d >>= _)
  rw [h]

theorem repeatUpTo_cons (h : step c = .ok (some a, d)) (hs : repeatUpTo step n d = .ok (as, e)) :
    repeatUpTo step (n + 1) c = .ok (a :: as, e) := by
  rw [repeatUpTo, Tracks.bind_eq h]
  exact Tracks.bind_eq hs

end

theorem moduleItem_congr {p : Parser (List Stmt)} (hs : skipNewlines c = .ok ((), e)) (he : e.kind? ≠ some .newline) :
    moduleItem p c = moduleItem p e := by
  unfold moduleItem
  rw [Tracks.bind_eq hs, Tracks.bind_eq <| skipNewlines_eq he]

-- Where the first token list ends, the statements of the second come behind its own.
theorem moduleItems_splice (hi : 1 < i) (hj : i ≤ j) (hk : k ≤ l)
    (hm : ∀ k ∈ more.head?, k.isClause = false ∧ k ≠ .newline ∧ k ≠ .indent)
    {ss : List (List Stmt)} (h : repeatUpTo (moduleItem (stmt (Below.ofDepth i) k)) n c = .ok (ss, e)) (hs : Splice more 0 c d) :
    ∃ ss' d', Same .forget .forget ss ss' ∧ d'.rest.map Token.kind = more ∧ d'.rest.length ≤ d'.size ∧ ∀ m ts e',
      repeatUpTo (moduleItem (stmt (Below.ofDepth j) l)) (m + 1) d' = .ok (ts, e') →
        repeatUpTo (moduleItem (stmt (Below.ofDepth j) l)) (m + 1 + ss.length) d = .ok (ss' ++ ts, e') := by
  induction n generalizing c d ss
  case zero => cases h
  case succ n hn =>
    obtain ⟨o, c₁, hc, h⟩ := ok_of_bind h
    obtain ⟨c₀, hc₀, hc⟩ := moduleItem_eq_ok_iff.mp hc
    obtain ⟨⟨⟩, d₀, hd₀, -, hs₀⟩ := Tracks.skipNewlines (F := .splice hm) c d hs _ c₀ hc₀
    obtain ⟨rfl, rfl, hc⟩ | ⟨s, w, rfl, hp, hw, he, hi'⟩ := hc
    case inl =>
      cases h
      have hk₀ : e.kind? = some .eof := hc.resolve_left hs₀.kind?_ne_none
      obtain ⟨-, hd⟩ := hs₀.ended hk₀
      refine ⟨[], d₀, rfl, hd, hs₀.bounded.right, fun m ts e' hr => (repeatUpTo_congr <| moduleItem_congr hd₀ fun hk' => ?_).trans hr⟩
      rw [d₀.kind?_eq, hd] at hk'
      exact (hm _ hk').right.left rfl
    case inr =>
      have hk₀ : c₀.kind? ≠ some .eof := by
        rw [hw]
        exact fun hw => he (Option.some.inj hw)
      obtain ⟨s', d₁, hq, hss, hs₁⟩ := tracks_stmt (F := .splice hm) (n := 0) hi hj hk c₀ d₀ ⟨hs₀, hk₀⟩ s c₁ hp
      obtain ⟨ss, _, hr, h⟩ := ok_of_bind h
      cases h
      obtain ⟨ss', d', hss', hd', hb, hr⟩ := hn hr hs₁
      have hd : moduleItem (stmt (Below.ofDepth j) l) d = .ok (some s', d₁) :=
        moduleItem_eq_ok_iff.mpr ⟨d₀, hd₀, .inr ⟨s', w, rfl, hq, (hs₀.kind?_eq hk₀).trans hw, he, hi'⟩⟩
      refine ⟨s' :: ss', d', ?_, hd', hb, fun m ts e' ht => repeatUpTo_cons hd (hr m ts e' ht)⟩
      simp_all

end Parser

section

variable {ts us vs : List Token} {ks ls : List Kind} {first second : Module}

theorem Token.parseModule_eq_ok_iff : parseModule ts = .ok first ↔ ∃ ss d,
    Parser.repeatUpTo (Parser.moduleItem (Parser.stmt (Below.ofDepth (ts.length + 1)) (ts.length + 1)))
      (ts.length + 1) (.ofTokens ts) = .ok (ss, d) ∧ first = ⟨ss.flatten⟩ := by
  refine Parser.run'_eq_ok_iff.trans ⟨?_, ?_⟩
  case refine_1 =>
    rintro ⟨d, h⟩
    obtain ⟨ss, _, hr, h⟩ := Parser.ok_of_bind h
    cases h
    exact ⟨ss, d, hr, rfl⟩
  case refine_2 =>
    rintro ⟨ss, d, hr, rfl⟩
    exact ⟨d, Parser.Tracks.bind_eq hr⟩

theorem Kin.forall₂_forget (h : ts.map Token.kind = us.map Token.kind) : List.Forall₂ (Kin .forget .forget) ts us := by
  have hk : List.Forall₂ (fun t u : Token => t.kind = u.kind) ts us := by
    rwa [← List.forall₂_map_right_iff, ← List.forall₂_map_left_iff (R := Eq), List.forall₂_eq_eq_eq]
  exact hk.imp fun _ _ => .forget

theorem Token.depth_of_parseModule (h : parseModule ts = .ok first) (ht : ts.map Token.kind = ks ++ [.eof]) (hk : .eof ∉ ks) :
    ts.foldl (fun depth t => Layout.depthAfter depth t.kind) 0 = 0 := by
  obtain ⟨ss, e, hr, -⟩ := parseModule_eq_ok_iff.mp h
  have hl : ts.length = ks.length + 1 := by simpa using congrArg List.length ht
  exact (Parser.moduleItems_level (by omega) hr le_rfl ht hk).right

-- What a module begins with does not belong to what stands in front of it.
theorem Token.head_of_parseModule (h : parseModule us = .ok second) (hn : ∀ t ∈ us.head?, t.kind ≠ .newline) :
    ∀ k ∈ (us.map Token.kind).head?, k.isClause = false ∧ k ≠ .newline ∧ k ≠ .indent := by
  intro k hk
  obtain ⟨ss, e, hr, -⟩ := parseModule_eq_ok_iff.mp h
  have hl : us ≠ [] := by
    rintro rfl
    cases hk
  have hc : (Cursor.ofTokens us).kind? = some k := (Cursor.kind?_eq _).trans hk
  have hn : (Cursor.ofTokens us).kind? ≠ some .newline := by
    intro hk
    obtain ⟨t, ht, hk⟩ := Option.map_eq_some_iff.mp hk
    exact hn t ht hk
  obtain ⟨hk, hi⟩ := Parser.moduleItems_head (Nat.lt_succ_of_le <| List.length_pos_iff.mpr hl) hr le_rfl hn k hc
  exact ⟨hk, fun he => hn (he ▸ hc), hi⟩

-- Two token lists, each of a module, make one of both modules when the end of the first is left out.
theorem Token.parseModule_append (hf : parseModule ts = .ok first) (hs : parseModule us = .ok second)
    (ht : ts.map Token.kind = ks ++ [.eof]) (hk : Finished 0 ks) (hu : us ≠ []) (hn : ∀ t ∈ us.head?, t.kind ≠ .newline) (hv : vs.map Token.kind = ks ++ us.map Token.kind) :
    ∃ m, parseModule vs = .ok m ∧
      m.body.map (Stmt.recast .forget) = first.body.map (Stmt.recast .forget) ++ second.body.map (Stmt.recast .forget) := by
  obtain ⟨ss, e, hr, rfl⟩ := parseModule_eq_ok_iff.mp hf
  obtain ⟨ss₂, e₂, hr₂, rfl⟩ := parseModule_eq_ok_iff.mp hs
  have htl : ts.length = ks.length + 1 := by simpa using congrArg List.length ht
  have hvl : vs.length = ks.length + us.length := by simpa using congrArg List.length hv
  have hup := List.length_pos_iff.mpr hu
  have hi : 1 < ts.length + 1 := by omega
  have hi₂ : 1 < us.length + 1 := by omega
  have hsl := (Parser.moduleItems_level hi hr le_rfl ht hk.within).left
  have hm := head_of_parseModule hs hn
  have htv : ts.length ≤ vs.length := by omega
  have hp : Splice (us.map Token.kind) 0 (.ofTokens ts) (.ofTokens vs) := ⟨⟨ks, ht, hv, hk⟩, htv, le_rfl, le_rfl⟩
  obtain ⟨ss', d, hss, hd, hb, h⟩ := Parser.moduleItems_splice hi (j := vs.length + 1) (l := vs.length + 1) (by omega) (by omega) hm hr hp
  have hdl : d.rest.length = us.length := by simpa using congrArg List.length hd
  have hw : Whole .forget .forget (.ofTokens us) d := ⟨Kin.forall₂_forget hd.symm, rfl, rfl, hdl.symm.trans_le hb, le_rfl, hb⟩
  have hst := Parser.tracks_stmt (F := .whole .forget .forget) (n := 0) hi₂ (j := vs.length + 1) (by omega) (k := us.length + 1)
    (l := vs.length + 1) (by omega)
  have hle : us.length + 1 ≤ vs.length - ss.length + 1 := by omega
  obtain ⟨ss₂', e', hr', hss₂, -⟩ := (Parser.Tracks.moduleItem hst).repeatUpTo hle (.ofTokens us) d hw ss₂ e₂ hr₂
  refine ⟨_, parseModule_eq_ok_iff.mpr ⟨ss' ++ ss₂', e', ?_, rfl⟩, ?_⟩
  case refine_1 =>
    have hv := h _ _ _ hr'
    rwa [show vs.length - ss.length + 1 + ss.length = vs.length + 1 by omega] at hv
  case refine_2 =>
    have hf : ss.flatten.map (Stmt.recast .forget) = _ := Parser.Tracks.flatten_same hss
    have hs : ss₂.flatten.map (Stmt.recast .forget) = _ := Parser.Tracks.flatten_same hss₂
    rw [hf, hs, List.flatten_append, List.map_append]
    rfl

end

theorem Token.tokenize_bind_eq_ok_iff {α : Type} {p : List Token → Except SyntaxError α} {a : α} {text : List Char} :
    (do (p (← tokenize text)).mapError ReadFailure.error) = .ok a ↔
      ∃ tokens, tokenize text = .ok tokens ∧ p tokens = .ok a := by
  constructor
  case mp =>
    intro h
    obtain ⟨tokens, ht, h⟩ := exists_ok_of_bind h
    refine ⟨tokens, ht, ?_⟩
    cases hr : p tokens <;> rw [hr] at h <;> cases h
    rfl
  case mpr =>
    rintro ⟨tokens, ht, h⟩
    rw [ht]
    change (p tokens).mapError ReadFailure.error = _
    rw [h]
    rfl

theorem Module.parse_eq_ok_iff {text : List Char} {m : Module} :
    parse text = .ok m ↔ ∃ tokens, Token.tokenize text = .ok tokens ∧ Token.parseModule tokens = .ok m :=
  Token.tokenize_bind_eq_ok_iff

-- The statements of two texts, one behind the other, are those of the first and those of the second, if the first ends with its line.
theorem Module.parse_append {first second : List Char} {m n : Module} (hm : Module.parse first = .ok m) (hn : Module.parse second = .ok n)
    (h : EndsLine first) : ∃ k, Module.parse (first ++ second) = .ok k ∧
      k.body.map Stmt.unplaced = m.body.map Stmt.unplaced ++ n.body.map Stmt.unplaced := by
  obtain ⟨ts, ht, hm⟩ := parse_eq_ok_iff.mp hm
  obtain ⟨us, hu, hn⟩ := parse_eq_ok_iff.mp hn
  obtain ⟨ks, hk, hf⟩ := Token.tokenize_finished ht
  obtain ⟨ls, hl, -⟩ := Token.tokenize_finished hu
  have hl : us ≠ [] := by
    rintro rfl
    simp at hl
  have hh := Token.tokenize_head_ne hu
  obtain ⟨vs, ws, hv, he, hw⟩ := Token.tokenize_append ht hu h (Token.depth_of_parseModule hm hk hf.within) fun t ht =>
    (Token.head_of_parseModule hn hh t.kind <| by rw [List.head?_map, ht]; rfl).right.right
  obtain ⟨rfl, -⟩ := List.append_inj' (hk.symm.trans he) rfl
  have hks : (vs ++ ws).map Token.kind = vs.map Token.kind ++ us.map Token.kind := by rw [List.map_append, hw]
  obtain ⟨k, hp, hb⟩ := Token.parseModule_append hm hn hk hf hl hh hks
  refine ⟨k, parse_eq_ok_iff.mpr ⟨vs ++ ws, hv, hp⟩, ?_⟩
  rwa [funext Stmt.recast_forget_all.left] at hb

-- A block that is open at the end of the text, and a comment that a backslash does not join to what follows.
def unfolded : List Char :=
  "if a:\n  b\n# c\\\n".toList

-- A conditional with a clause of its own.
def refolded : List Char :=
  "if a: b\nelse: c".toList

theorem unfolded_parse_append : ∃ m n k, Module.parse unfolded = .ok m ∧ Module.parse refolded = .ok n ∧ EndsLine unfolded ∧
    Module.parse (unfolded ++ refolded) = .ok k ∧ k.body.map Stmt.unplaced = m.body.map Stmt.unplaced ++ n.body.map Stmt.unplaced ∧
      k.body.length = 2 := by
  have hm : (Module.parse unfolded).toOption.bind (fun m => some m.body.length) = some 1 := by decide +kernel
  have hn : (Module.parse refolded).toOption.bind (fun m => some m.body.length) = some 1 := by decide +kernel
  obtain ⟨m, hm, hl⟩ := exists_ok_of_toOption hm
  obtain ⟨n, hn, hl'⟩ := exists_ok_of_toOption hn
  have h : EndsLine unfolded := .inr ⟨⟨.lineBreak, ['\n']⟩, by decide +kernel, rfl⟩
  obtain ⟨k, hk, hs⟩ := Module.parse_append hm hn h
  refine ⟨m, n, k, hm, hn, h, hk, hs, ?_⟩
  have hc := congrArg List.length hs
  rw [List.length_append, List.length_map, List.length_map, List.length_map, Option.some.inj hl, Option.some.inj hl'] at hc
  exact hc

end PyVerify
