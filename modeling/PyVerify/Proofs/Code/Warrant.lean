import PyVerify.Code.Artifact
import PyVerify.Proofs.Code.Assembly
import PyVerify.Proofs.Profile.Exact
import PyVerify.Proofs.Token.Lexical

namespace PyVerify

variable {c : Check} {f : Feature} {x : Expr}

-- Something in an expression gives reason for a check.
def Expr.Warrants (e : Expr) (c : Check) : Prop :=
  ∃ f ∈ e.features, f.Warrants c

def Stmt.Warrants (s : Stmt) (c : Check) : Prop :=
  ∀ k, ∃ f ∈ s.features k, f.Warrants c

namespace Expr.Warrants

variable {e : Expr}

theorem own (h : f ∈ e.ownFeatures) (w : f.Warrants c) : e.Warrants c := by
  unfold Warrants
  rw [features]
  exact ⟨f, List.mem_append_left _ h, w⟩

theorem child (h : x ∈ e.children) (w : x.Warrants c) : e.Warrants c := by
  obtain ⟨f, hf, w⟩ := w
  unfold Warrants
  rw [features]
  exact ⟨f, List.mem_append_right _ <| by simpa using ⟨x, h, hf⟩, w⟩

theorem some_child {xs : List Expr} (hs : xs ⊆ e.children) (h : ∃ x ∈ xs, x.Warrants c) : e.Warrants c := by
  obtain ⟨x, hx, w⟩ := h
  exact .child (hs hx) w

end Expr.Warrants

namespace Stmt.Warrants

variable {s t : Stmt}

theorem own (h : ∀ k, f ∈ s.ownFeatures k) (w : f.Warrants c) : s.Warrants c := by
  intro k
  rw [features]
  exact ⟨f, by simp [h], w⟩

theorem expr (h : x ∈ s.exprs) (w : x.Warrants c) : s.Warrants c := by
  intro k
  obtain ⟨f, hf, w⟩ := w
  rw [features]
  exact ⟨f, by simpa using .inr <| .inl ⟨x, h, hf⟩, w⟩

theorem child (h : t ∈ s.children) (w : t.Warrants c) : s.Warrants c := by
  intro k
  obtain ⟨f, hf, w⟩ := w (if s.isLoop then k + 1 else k)
  rw [features]
  exact ⟨f, by simpa using .inr <| .inr ⟨t, h, hf⟩, w⟩

theorem some_child {ts : List Stmt} (hs : ts ⊆ s.children) (h : ∃ t ∈ ts, t.Warrants c) : s.Warrants c := by
  obtain ⟨t, ht, w⟩ := h
  exact .child (hs ht) w

end Stmt.Warrants

namespace Code

theorem warrants_of_mem_checksOf {op : BinaryOp} (h : c ∈ checksOf op) :
    (Feature.operator op).Warrants c := by
  cases op <;> simp only [checksOf, List.mem_singleton, List.not_mem_nil] at h <;> subst h
  case add | sub | mul      => exact .overflow (by decide)
  case div | floorDiv | mod => exact .divByZero (by decide)

variable {v : Verifier}

-- What the term of an expression calls for has its reason in the expression.

mutual

theorem Lowers.warrants {c : Check} : Lowers v e t n → c ∈ n.checks → e.Warrants c
  | .binary _ hl hr, hc => by
    simp only [Notes.checks_append, List.mem_append] at hc
    obtain hc | hc | hc := hc
    · exact .own List.mem_cons_self (warrants_of_mem_checksOf hc)
    · exact .child (by simp [Expr.children]) (hl.warrants hc)
    · exact .child (by simp [Expr.children]) (hr.warrants hc)
  | .unary h, hc => .child List.mem_cons_self (h.warrants hc)
  | .junction hs, hc => .some_child (List.Subset.refl _) (hs.warrants hc)
  | .compare hl hs, hc => by
    obtain hc | hc := List.mem_append.mp hc
    · exact .child List.mem_cons_self (hl.warrants hc)
    · exact .some_child (List.subset_cons_self _ _) (hs.warrants hc)
  | .assume _ hs, hc | .call _ hs, hc => .some_child (by simp [Expr.children]) (hs.warrants hc)
  | .nondet _ _ hs, hc => by
    simp only [Notes.checks_append, List.append_nil] at hc
    exact .some_child (by simp [Expr.children]) (hs.warrants hc)
  | .attr _ h, hc => by
    obtain hc | hc := List.mem_append.mp hc
    · obtain rfl := List.mem_singleton.mp hc
      exact .own List.mem_cons_self .pointer
    · exact .child List.mem_cons_self (h.warrants hc)
  | .subscript _ h hx, hc => by
    simp only [Notes.checks_append, List.mem_append] at hc
    obtain hc | hc | hc := hc
    · obtain rfl := List.mem_singleton.mp hc
      exact .own List.mem_cons_self .bounds
    · exact .child (by simp [Expr.children]) (h.warrants hc)
    · exact .child (by simp [Expr.children]) (hx.warrants hc)
  | .conditional ht hb ho, hc => by
    simp only [Notes.checks_append, List.mem_append] at hc
    obtain hc | hc | hc := hc
    · exact .child (by simp [Expr.children]) (ht.warrants hc)
    · exact .child (by simp [Expr.children]) (hb.warrants hc)
    · exact .child (by simp [Expr.children]) (ho.warrants hc)

theorem LowersAll.warrants {c : Check} :
    LowersAll v es ts n → c ∈ n.checks → ∃ x ∈ es, x.Warrants c
  | .cons h hs, hc => by
    obtain hc | hc := List.mem_append.mp hc
    · exact ⟨_, List.mem_cons_self, h.warrants hc⟩
    · obtain ⟨x, hx, w⟩ := hs.warrants hc
      exact ⟨x, List.mem_cons_of_mem _ hx, w⟩

end

theorem Tests.warrants (h : Tests v e t n) (hc : c ∈ n.checks) : e.Warrants c := by
  cases h
  case term h       => exact h.warrants hc
  case unsupported  => cases hc

theorem Places.warrants (h : Places v e p n) (hc : c ∈ n.checks) : e.Warrants c := by
  cases h
  case name   => cases hc
  case term h => exact h.warrants hc

theorem PlacesAll.warrants (h : PlacesAll v es ps n) (hc : c ∈ n.checks) :
    ∃ x ∈ es, x.Warrants c := by
  induction h
  case nil => cases hc
  case cons h _ hi =>
    obtain hc | hc := List.mem_append.mp hc
    · exact ⟨_, List.mem_cons_self, h.warrants hc⟩
    · obtain ⟨x, hx, w⟩ := hi hc
      exact ⟨x, List.mem_cons_of_mem _ hx, w⟩

theorem Ranges.warrants (h : Ranges v target iter σ declaration header n τ) (hc : c ∈ n.checks) :
    iter.Warrants c := by
  obtain ⟨hr, ha⟩ := h
  obtain ⟨x, hx, w⟩ := ha.warrants hc
  exact .child (mem_children_of_rangeArgs? hr hx) w

mutual

theorem Emits.warrants {c : Check} : Emits v s σ code n τ → c ∈ n.checks → s.Warrants c
  | .silent _, hc | .placeholder _, hc | .break, hc | .continue, hc | .returnZero, hc | .returnUnsupported _, hc
  | .typed _, hc | .typedPlace _, hc => by cases hc
  | .return h, hc => .expr (by simp [Stmt.exprs]) (h.warrants hc)
  | .assign _ h hp _, hc => by
    obtain hc | hc := List.mem_append.mp hc
    · exact .expr (by simp [Stmt.exprs]) (h.warrants hc)
    · obtain ⟨x, hx, w⟩ := hp.warrants hc
      exact .expr (by simp [Stmt.exprs, hx]) w
  | .annAssign h hp _, hc => by
    obtain hc | hc := List.mem_append.mp hc
    · exact .expr (by simp [Stmt.exprs]) (h.warrants hc)
    · exact .expr (by simp [Stmt.exprs]) (hp.warrants hc)
  | .augAssign _ ht h, hc => by
    simp only [Notes.checks_append, List.mem_append] at hc
    obtain hc | hc | hc := hc
    · exact .own (fun _ => List.mem_cons_self) (warrants_of_mem_checksOf hc)
    · exact .expr (by simp [Stmt.exprs]) (ht.warrants hc)
    · exact .expr (by simp [Stmt.exprs]) (h.warrants hc)
  | .expr _ h, hc => .expr (by simp [Stmt.exprs]) (h.warrants hc)
  | .assert h, hc => .expr (by simp [Stmt.exprs]) (h.warrants hc)
  | .if ht hb ho, hc => by
    simp only [Notes.checks_append, List.mem_append] at hc
    obtain hc | hc | hc := hc
    · exact .expr (by simp [Stmt.exprs]) (ht.warrants hc)
    · exact .some_child (by simp [Stmt.children, Stmt.blocks]) (hb.warrants hc)
    · exact .some_child (by simp [Stmt.children, Stmt.blocks]) (ho.warrants hc)
  | .while ht hb, hc => by
    obtain hc | hc := List.mem_append.mp hc
    · exact .expr (by simp [Stmt.exprs]) (ht.warrants hc)
    · exact .some_child (by simp [Stmt.children, Stmt.blocks]) (hb.warrants hc)
  | .for hr hb, hc => by
    obtain hc | hc := List.mem_append.mp hc
    · exact .expr (by simp [Stmt.exprs]) (hr.warrants hc)
    · exact .some_child (by simp [Stmt.children, Stmt.blocks]) (hb.warrants hc)

theorem EmitsBlock.warrants {c : Check} :
    EmitsBlock v ss σ code n τ → c ∈ n.checks → ∃ s ∈ ss, s.Warrants c
  | .cons h hs, hc => by
    obtain hc | hc := List.mem_append.mp hc
    · exact ⟨_, List.mem_cons_self, h.warrants hc⟩
    · obtain ⟨t, hm, w⟩ := hs.warrants hc
      exact ⟨t, List.mem_cons_of_mem _ hm, w⟩

theorem EmitsOrelse.warrants {c : Check} :
    EmitsOrelse v ss σ more final n τ → c ∈ n.checks → ∃ s ∈ ss, s.Warrants c
  | .elif ht hb ho, hc => by
    refine ⟨_, List.mem_cons_self, ?_⟩
    simp only [Notes.checks_append, List.mem_append] at hc
    obtain hc | hc | hc := hc
    · exact .expr (by simp [Stmt.exprs]) (ht.warrants hc)
    · exact .some_child (by simp [Stmt.children, Stmt.blocks]) (hb.warrants hc)
    · exact .some_child (by simp [Stmt.children, Stmt.blocks]) (ho.warrants hc)
  | .else _ _ h, hc => h.warrants hc

end

theorem warrants_of_emitTopLevel {s : PyVerify.Stmt} {σ : Scope}
    (hc : c ∈ (emitTopLevel v s σ).notes.checks) : s.Warrants c := by
  have written : c ∈ (emitStmt v s σ).notes.checks → s.Warrants c :=
    fun h => (Emits.of_emitStmt s rfl).warrants h
  revert hc
  fun_cases emitTopLevel v s <;> intro hc
  case case1 block =>
    exact .some_child (by simp [Stmt.children, Stmt.blocks]) ((EmitsBlock.of_emitBlock block rfl).warrants hc)
  case case2 | case3 => cases hc
  case case4 block _ _ =>
    have hc : c ∈ (emitBlock v block σ).notes.checks := by simpa [bind, pure] using hc
    exact .some_child (by simp [Stmt.children, Stmt.blocks]) ((EmitsBlock.of_emitBlock block rfl).warrants hc)
  case case5 | case6 => exact written (by simpa [bind, pure] using hc)

theorem warrants_of_emitTopLevels {ss : List PyVerify.Stmt} {σ : Scope}
    (hc : c ∈ (emitTopLevels v ss σ).notes.checks) : ∃ s ∈ ss, s.Warrants c := by
  induction ss generalizing σ
  case nil => cases hc
  case cons s ss hi =>
    simp only [emitTopLevels, bind, pure, Notes.append_none, Notes.checks_append] at hc
    obtain hc | hc := List.mem_append.mp hc
    · exact ⟨s, List.mem_cons_self, warrants_of_emitTopLevel hc⟩
    · obtain ⟨t, ht, w⟩ := hi hc
      exact ⟨t, List.mem_cons_of_mem _ ht, w⟩

theorem Translation.checks_nodup {m : Module} {t : Translation} (h : ofModule? m = some t) :
    t.checks.Nodup := by
  simp only [ofModule?] at h
  split at h
  case isTrue => cases h
  case isFalse =>
    cases h
    exact addDistinct_nodup List.nodup_nil

theorem Translation.checks_subset {m : Module} {t : Translation} (h : ofModule? m = some t) :
    t.checks ⊆ (Profile.ofModule m).recommended := by
  simp only [ofModule?] at h
  split at h
  case isTrue => cases h
  case isFalse =>
    cases h
    intro c hc
    have hn := (mem_addDistinct.mp hc).resolve_left List.not_mem_nil
    obtain ⟨s, hs, w⟩ := warrants_of_emitTopLevels hn
    obtain ⟨f, hf, w⟩ := w 0
    exact Profile.mem_recommended_iff.mpr ⟨f, List.mem_flatMap.mpr ⟨s, hs, hf⟩, w⟩

end Code

theorem Profile.recommended_nodup {fs : List Feature} : (ofFeatures fs).recommended.Nodup := by
  simp only [ofFeatures, derivedChecks]
  split <;> split <;> split <;> split <;> decide

-- What a translation says on checks is what the analysis of the source recommends.
theorem Artifact.checks_agree {source : List Char} {a : Artifact} (h : ofSource source [] = .ok a) :
    ∃ m b, Module.parse source = .ok m ∧ ofSource source (Profile.ofModule m).recommended = .ok b ∧
      a.checks.Nodup ∧ a.checks ⊆ (Profile.ofModule m).recommended ∧
      b.checks.Nodup ∧ b.checks.Perm (Profile.ofModule m).recommended := by
  unfold ofSource at h
  split at h
  case h_1 => cases h
  case h_2 m hm =>
    split at h
    case h_1 => cases h
    case h_2 t ht =>
      cases h
      have hn := Code.Translation.checks_nodup ht
      have hs := Code.Translation.checks_subset ht
      have hr : (Profile.ofModule m).recommended.Nodup := Profile.recommended_nodup
      have hb : (addDistinct t.checks (Profile.ofModule m).recommended).Nodup := addDistinct_nodup hn
      refine ⟨m, ofTranslation t (Profile.ofModule m).recommended, hm, ?_, hn, hs, hb, ?_⟩
      · simp only [ofSource, hm, ht]
      · exact (List.perm_ext_iff_of_nodup hb hr).mpr fun c => by grind [mem_addDistinct]

-- A remainder is lowered here, and a sum has no place in the code.
def remainder : List Char :=
  "x = y[7 % n]\ndel a[i + 1]\n".toList

theorem remainder_checks_agree :
    ∃ a, Artifact.ofSource remainder [] = .ok a ∧ a.checks = [.bounds, .divByZero] ∧
      ∃ m b, Module.parse remainder = .ok m ∧
        Artifact.ofSource remainder (Profile.ofModule m).recommended = .ok b ∧
        a.checks.Nodup ∧ a.checks ⊆ (Profile.ofModule m).recommended ∧
        b.checks.Nodup ∧ b.checks.Perm (Profile.ofModule m).recommended := by
  have hc : (Artifact.ofSource remainder []).toOption.bind (fun a => some a.checks) =
      some [.bounds, .divByZero] := by decide +kernel
  obtain ⟨a, h, hc⟩ := exists_ok_of_toOption hc
  exact ⟨a, h, Option.some.inj hc, Artifact.checks_agree h⟩

end PyVerify
