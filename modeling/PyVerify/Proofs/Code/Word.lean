import PyVerify.Code.Print
import PyVerify.Proofs.Code.Emission
import PyVerify.Proofs.Tree.Lexical

namespace PyVerify.Code

open PyVerify.Token (IsName)

-- What is in a piece of code besides the signs and the words of its own.
inductive Word where
  -- a variable or a function
  | name (text : String)
  | member (text : String)
  -- of a string
  | body (text : String)
  -- in a comment
  | message (text : String)
deriving DecidableEq, Repr

mutual

def Term.words : Term → List Word
  | .ident name               => [.name name]
  | .int _ | .float _         => []
  | .str body                 => [.body body]
  | .infix2 l _ r | .index l r => l.words ++ r.words
  | .joined _ operands        => termsWords operands
  | .sign _ t | .paren t | .cast _ t => t.words
  | .conditional c b o        => c.words ++ (b.words ++ o.words)
  | .call func args           => .name func :: termsWords args
  | .member base name         => base.words ++ [.member name]

def termsWords : List Term → List Word
  | []      => []
  | t :: ts => t.words ++ termsWords ts

end

def Condition.words : Condition → List Word
  | term t            => t.words
  | unsupported cause => [.message cause.message]

-- A text that neither ends the comment it is in nor has the end of a line escaped.
def isRemark (text : String) : Bool :=
  text.toList.all fun c => c ≠ '/' && c ≠ '\\'

-- What the text of a program guarantees of the words in its code.
def Word.IsLexical : Word → Prop
  | name text     => text = "assert" ∨ ∃ ident, IsName ident ∧ identifier ident = text
  | member text   => IsName text
  | body text     => isEscaped text.toList
  | message text  => isRemark text

-- The names of primitives are names of the source.
def Verifier.Lexical (v : Verifier) : Prop :=
  ∀ p ∈ v.bare, IsName p.snd

section

variable {v : Verifier} {e func : Expr} {es : List Expr} {t l : Term} {ts : List Term} {n : Notes} {p : String}
  {w : Word} {cause : Unsupported}

theorem termsWords_eq : termsWords ts = (ts.map Term.words).flatten := by
  induction ts <;> simp_all [termsWords]

@[simp] theorem words_grouped : (grouped e t).words = t.words := by
  unfold grouped
  split <;> rfl

@[simp] theorem words_bare : (bare e t).words = t.words := by
  unfold bare
  split <;> rfl

@[simp] theorem words_signTerm {op : UnaryOp} : (signTerm op t).words = t.words := by
  cases op <;> rfl

@[simp] theorem termsWords_paren : termsWords (ts.map .paren) = termsWords ts := by
  induction ts <;> simp_all [termsWords, Term.words]

theorem LowersAll.words_zipWith {f : Expr → Term → Term} (hf : ∀ e t, (f e t).words = t.words)
    (h : LowersAll v es ts n) : termsWords (es.zipWith f ts) = termsWords ts := by
  rw [termsWords_eq, termsWords_eq, h.map_zipWith hf]

theorem termsWords_linkTerms {links : List (CompareOp × Term)} :
    termsWords (linkTerms l links) ⊆ l.words ++ termsWords (links.map Prod.snd) := by
  induction links generalizing l
  case nil => simp [linkTerms, termsWords]
  case cons link links hi =>
    intro w hw
    simp only [linkTerms, termsWords, Term.words, List.map_cons, List.mem_append] at hw ⊢
    obtain (hw | hw) | hw := hw
    · exact .inl hw
    · exact .inr <| .inl hw
    · exact .inr <| List.mem_append.mp (hi hw)

theorem words_chain {links : List (CompareOp × Term)} :
    (chain l links).words ⊆ l.words ++ termsWords (links.map Prod.snd) := by
  obtain h | h := chain_cases l links
  case inl => simpa [h, termsWords] using @termsWords_linkTerms l links
  case inr => simpa [h, Term.words] using @termsWords_linkTerms l links

theorem words_callTerm : (callTerm p ts).words ⊆ .name (identifier p) :: termsWords ts := by
  obtain ⟨t, rfl, ⟨_, h⟩ | ⟨_, h⟩ | ⟨_, h⟩⟩ | ⟨_, h⟩ := callTerm_cases p ts
  all_goals simp [h, Term.words, termsWords]

-- The names of the primitives stand in the code as they are.
theorem identifier_of_isNondet (h : Verifier.isNondet p) : identifier p = p := by
  have hr : ∀ k ∈ "main" :: reserved, ¬Verifier.isNondet k := by decide +kernel
  obtain ⟨hm, hr⟩ := List.forall_mem_cons.mp hr
  have hm : p ≠ "main" := fun hp => hm (hp ▸ h)
  have hr : p ∉ reserved := fun hp => hr p hp h
  simp [identifier, hm, hr]

theorem Verifier.Lexical.primitive? (hv : v.Lexical) (hf : func.Lexical) (h : v.primitive? func = some p) : IsName p := by
  unfold Verifier.primitive? at h
  split at h
  case h_1 =>
    split at h <;> cases h
    exact hf.self
  case h_2 =>
    split at h
    case h_1 hl =>
      cases h
      obtain ⟨_, _, hs, _⟩ := List.lookup_eq_some_iff.mp hl
      exact hv _ <| List.mem_reverse.mp <| hs ▸ List.mem_append_right _ List.mem_cons_self
    case h_2 =>
      split at h <;> cases h
      exact hf.self
  case h_3 => cases h

end

section

variable {v : Verifier}

mutual

theorem Lowers.lexical (hv : v.Lexical) : Lowers v e t n → e.Lexical → ∀ w ∈ t.words, w.IsLexical
  | .name, he => List.forall_mem_singleton.mpr <| .inr ⟨_, he.self, rfl⟩
  | .int, _ | .float, _ | .truth, _ | .none, _ => nofun
  | .str, he => List.forall_mem_singleton.mpr he.self
  | .binary _ hl hr, he => by
    simp only [Term.words, words_grouped, List.forall_mem_append]
    exact ⟨hl.lexical hv (he.part .left), hr.lexical hv (he.part .right)⟩
  | .unary h, he => by
    rw [words_signTerm, words_grouped]
    exact h.lexical hv (he.part .operand)
  | .junction hs, he => by
    rw [Term.words, Term.words, termsWords_paren, hs.words_zipWith fun _ _ => words_grouped]
    exact hs.lexical hv fun x hx => he.part (.value hx)
  | .compare hl hs, he => by
    intro w hw
    have hw := words_chain hw
    rw [words_grouped, map_snd_linked, hs.words_zipWith fun _ _ => words_grouped, List.mem_append] at hw
    refine hw.elim (hl.lexical hv (he.part .compared) w) (hs.lexical hv ?_ w)
    exact List.forall_mem_map.mpr fun _ hl => he.part (.link hl)
  | .assume _ hs, he => by
    rw [Term.words, hs.words_zipWith fun _ _ => words_bare]
    refine List.forall_mem_cons.mpr ⟨.inr ⟨"__ESBMC_assume", by decide, by decide⟩, ?_⟩
    exact hs.lexical hv fun x hx => he.part (.arg hx)
  | .nondet hp hn _, he =>
    List.forall_mem_singleton.mpr <| .inr ⟨_, hv.primitive? (he.part .func) hp, identifier_of_isNondet hn⟩
  | .call _ hs, he => by
    intro w hw
    have hw := words_callTerm hw
    rw [hs.words_zipWith fun _ _ => words_bare] at hw
    obtain rfl | hw := List.mem_cons.mp hw
    · exact .inr ⟨_, (he.part .func).self, rfl⟩
    · exact hs.lexical hv (fun x hx => he.part (.arg hx)) w hw
  | .attr _ h, he => by
    simp only [Term.words, words_grouped, List.forall_mem_append]
    exact ⟨h.lexical hv (he.part .receiver), List.forall_mem_singleton.mpr he.self⟩
  | .subscript _ h hx, he => by
    simp only [Term.words, words_grouped, List.forall_mem_append]
    exact ⟨h.lexical hv (he.part .indexed), hx.lexical hv (he.part .index)⟩
  | .conditional ht hb ho, he => by
    simp only [Term.words, words_grouped, List.forall_mem_append]
    exact ⟨ht.lexical hv (he.part .test), hb.lexical hv (he.part .body), ho.lexical hv (he.part .orelse)⟩

theorem LowersAll.lexical (hv : v.Lexical) :
    LowersAll v es ts n → (∀ e ∈ es, e.Lexical) → ∀ w ∈ termsWords ts, w.IsLexical
  | .nil, _ => nofun
  | .cons h hs, he => by
    obtain ⟨he, hes⟩ := List.forall_mem_cons.mp he
    exact List.forall_mem_append.mpr ⟨h.lexical hv he, hs.lexical hv hes⟩

end

end

section

variable {v : Verifier}

theorem Verifier.Lexical.addName {a : Alias} (hv : v.Lexical) (ha : a.IsLexical) : (v.addName a).Lexical := by
  unfold Verifier.addName
  split
  case isTrue     => exact hv
  case isFalse h  => exact List.forall_mem_append.mpr ⟨hv, List.forall_mem_singleton.mpr <| ha.resolve_left h⟩

theorem Verifier.Lexical.add {s : PyVerify.Stmt} (hv : v.Lexical) (hs : s.IsLexical) : (v.add s).Lexical := by
  unfold Verifier.add
  split
  case h_1 => split <;> exact hv
  case h_2 module names _ =>
    split
    case isFalse => exact hv
    case isTrue =>
      refine List.foldlRecOn names _ (motive := Verifier.Lexical) hv fun u hu a ha => hu.addName ?_
      exact hs a ha
  case h_3 => exact hv

theorem Verifier.Lexical.of_module {m : Module} (h : ∀ s ∈ m.body, s.Lexical) : (ofModule m).Lexical :=
  List.foldlRecOn m.body _ (motive := Verifier.Lexical) nofun fun _ hu s hs => hu.add (h s hs).self

end

-- What a cause names.
def Unsupported.detail : Unsupported → String
  | kind text | operator text | verifierAttribute text | verifierPrimitive text | callThrough text => text
  | wideInt | keywordArguments => ""

def Unsupported.Lexical (cause : Unsupported) : Prop :=
  isRemark cause.message

theorem Unsupported.Lexical.of_detail {cause : Unsupported} (h : isRemark cause.detail) : cause.Lexical := by
  unfold Lexical message
  cases cause <;> simp_all [isRemark, detail, toString]

theorem isRemark_of_isName {name : String} (h : IsName name) : isRemark name := by
  have hn : ['/', '\\'].all (!Token.Lexeme.isNameChar ·) := by decide
  refine List.all_eq_true.mpr fun c hc => ?_
  have hc : c ∉ ['/', '\\'] := fun hm => by simpa [h.word c hc] using List.all_eq_true.mp hn c hm
  simpa using hc

theorem isRemark_describe {e : Expr} : isRemark e.describe := by
  cases e <;> simp [Expr.describe, isRemark]

namespace Unsupported.Lexical

variable {v : Verifier} {e func : Expr} {ts : List Term} {cause : Unsupported}

theorem kind : (Unsupported.kind e.describe).Lexical :=
  .of_detail isRemark_describe

theorem operator {op : BinaryOp} (h : infixOp? op = none) : (Unsupported.operator op.symbol).Lexical := by
  refine .of_detail ?_
  cases op <;> cases h <;> decide

theorem of_constantTerm {c : Constant} (h : constantTerm "constant" c = Except.error cause) : cause.Lexical := by
  refine .of_detail ?_
  cases c <;> cases h <;> decide

theorem of_lowerCall (hv : v.Lexical) (hf : func.Lexical) (h : lowerCall v func ts = Except.error cause) :
    cause.Lexical := by
  refine .of_detail ?_
  unfold lowerCall at h
  split at h
  case h_1 hp =>
    split at h
    case isTrue => cases h
    case isFalse =>
      split at h <;> cases h
      exact isRemark_of_isName (hv.primitive? hf hp)
  case h_2 =>
    split at h <;> cases h
    exact isRemark_describe

end Unsupported.Lexical

section

variable {v : Verifier}

open Lowering (bind_eq_error bind_pure_eq_error)
open Unsupported.Lexical (of_constantTerm of_lowerCall)

mutual

theorem lexical_of_lowerOpen (hv : v.Lexical) : (e : Expr) → {cause : Unsupported} → e.Lexical →
    lowerOpen v e = Except.error cause → cause.Lexical
  | .name .., _, _, h => by cases h
  | .constant .., _, _, h => of_constantTerm h
  | .binary _ left op right, _, he, h => by
    simp only [lowerOpen] at h
    split at h
    case h_1 ho =>
      cases h
      exact .operator ho
    case h_2 =>
      obtain h | ⟨_, _, _, h⟩ := bind_eq_error h
      case inl => cases h
      obtain hl | ⟨_, _, _, h⟩ := bind_eq_error h
      · exact lexical_of_lowerOpen hv left (he.part .left) hl
      · exact lexical_of_lowerOpen hv right (he.part .right) (bind_pure_eq_error h)
  | .unary _ _ operand, _, he, h => lexical_of_lowerOpen hv operand (he.part .operand) (bind_pure_eq_error h)
  | .bool _ _ values, _, he, h =>
    lexical_of_lowerOperands hv values (fun _ hx => he.part (.value hx)) (bind_pure_eq_error h)
  | .compare _ left links, _, he, h => by
    obtain hl | ⟨_, _, _, h⟩ := bind_eq_error h
    · exact lexical_of_lowerOpen hv left (he.part .compared) hl
    · exact lexical_of_lowerLinks hv links (fun _ _ hx => he.part (.link hx)) (bind_pure_eq_error h)
  | .call _ func args _, _, he, h => by
    simp only [lowerOpen] at h
    split at h
    case isTrue =>
      obtain ha | ⟨_, _, _, h⟩ := bind_eq_error h
      · exact lexical_of_lowerArgs hv args (fun _ hx => he.part (.arg hx)) ha
      · exact of_lowerCall hv (he.part .func) h
    case isFalse =>
      cases h
      exact .of_detail (by decide)
  | .attr _ value i, _, he, h => by
    simp only [lowerOpen] at h
    split at h
    case isTrue =>
      cases h
      exact .of_detail (isRemark_of_isName he.self)
    case isFalse =>
      obtain h | ⟨_, _, _, h⟩ := bind_eq_error h
      case inl => cases h
      exact lexical_of_lowerOpen hv value (he.part .receiver) (bind_pure_eq_error h)
  | .subscript _ value index, _, he, h => by
    simp only [lowerOpen] at h
    split at h
    case isTrue =>
      cases h
      exact .kind
    case isFalse =>
      obtain h | ⟨_, _, _, h⟩ := bind_eq_error h
      case inl => cases h
      obtain hl | ⟨_, _, _, h⟩ := bind_eq_error h
      · exact lexical_of_lowerOpen hv value (he.part .indexed) hl
      · exact lexical_of_lowerOpen hv index (he.part .index) (bind_pure_eq_error h)
  | .conditional _ test body orelse, _, he, h => by
    obtain ht | ⟨_, _, _, h⟩ := bind_eq_error h
    · exact lexical_of_lowerOpen hv test (he.part .test) ht
    obtain hb | ⟨_, _, _, h⟩ := bind_eq_error h
    · exact lexical_of_lowerOpen hv body (he.part .body) hb
    · exact lexical_of_lowerOpen hv orelse (he.part .orelse) (bind_pure_eq_error h)
  | .slice .., _, _, h | .starred .., _, _, h | .tuple .., _, _, h | .list .., _, _, h
  | .set .., _, _, h | .dict .., _, _, h | .lambda .., _, _, h | .listComp .., _, _, h
  | .setComp .., _, _, h | .dictComp .., _, _, h | .generator .., _, _, h | .named .., _, _, h
  | .await .., _, _, h | .yield .., _, _, h | .yieldFrom .., _, _, h => by
    cases h
    exact .kind

theorem lexical_of_lowerOperands (hv : v.Lexical) : (es : List Expr) → {cause : Unsupported} →
    (∀ e ∈ es, e.Lexical) → lowerOperands v es = Except.error cause → cause.Lexical
  | [], _, _, h => by cases h
  | e :: es, _, he, h => by
    obtain ⟨he, hes⟩ := List.forall_mem_cons.mp he
    obtain h | ⟨_, _, _, h⟩ := bind_eq_error h
    · exact lexical_of_lowerOpen hv e he h
    · exact lexical_of_lowerOperands hv es hes (bind_pure_eq_error h)

theorem lexical_of_lowerArgs (hv : v.Lexical) : (es : List Expr) → {cause : Unsupported} →
    (∀ e ∈ es, e.Lexical) → lowerArgs v es = Except.error cause → cause.Lexical
  | [], _, _, h => by cases h
  | e :: es, _, he, h => by
    obtain ⟨he, hes⟩ := List.forall_mem_cons.mp he
    obtain h | ⟨_, _, _, h⟩ := bind_eq_error h
    · exact lexical_of_lowerOpen hv e he h
    · exact lexical_of_lowerArgs hv es hes (bind_pure_eq_error h)

theorem lexical_of_lowerLinks (hv : v.Lexical) : (links : List (CompareOp × Expr)) → {cause : Unsupported} →
    (∀ op e, (op, e) ∈ links → e.Lexical) → lowerLinks v links = Except.error cause → cause.Lexical
  | [], _, _, h => by cases h
  | (op, e) :: links, _, he, h => by
    obtain h | ⟨_, _, _, h⟩ := bind_eq_error h
    · exact lexical_of_lowerOpen hv e (he op e List.mem_cons_self) h
    · exact lexical_of_lowerLinks hv links (fun op e hx => he op e <| List.mem_cons_of_mem _ hx)
        (bind_pure_eq_error h)

end

end

end PyVerify.Code
