import PyVerify.Proofs.Code.Lexeme
import PyVerify.Proofs.Code.Operation

namespace PyVerify.Code

-- How closely an operator binds its operands.
def InfixOp.level : InfixOp → Nat
  | or                     => 1
  | and                    => 2
  | bitOr                  => 3
  | bitXor                 => 4
  | bitAnd                 => 5
  | eq | notEq             => 6
  | lt | le | gt | ge      => 7
  | shiftLeft | shiftRight => 8
  | add | sub              => 9
  | mul | div | mod        => 10

-- What was begun and waits for an operand.
inductive Frame where
  | lead (p : Prefix)
  | infix2 (left : Operation) (op : InfixOp)
  | branch (test body : Operation)
  -- The ones below end with a bracket, a colon or a name.
  | paren
  | type (type : CType)
  | args (func : Operation) (before : List Operation)
  | index (base : Operation)
  | member (base : Operation)
  | test (test : Operation)
deriving Repr

-- Applies the operators that bind an operand at least this closely to what stands before it.
-- A conditional binds less than any infix operator.
def reduce (level : Nat) : List Frame → Operation → List Frame × Operation
  | .lead p :: fs, x => reduce level fs (.lead p x)
  | .infix2 left op :: fs, x =>
    if level ≤ op.level then reduce level fs (.infix2 left op x) else (.infix2 left op :: fs, x)
  | .branch c b :: fs, x =>
    if level = 0 then reduce level fs (.conditional c b x) else (.branch c b :: fs, x)
  | fs, x => (fs, x)

structure Reader where
  frames  : List Frame
  -- the operand that was read last, unless one is expected
  operand : Option Operation

namespace Reader

-- A token where an operand is expected.
def expect : List Frame → Token → Option Reader
  | .member base :: fs, .word name    => some ⟨fs, some (.member base name)⟩
  | .type type :: fs, .mark .closing  => some ⟨.lead (.cast type) :: fs, none⟩
  | .member _ :: _, _ | .type _ :: _, _ => none
  | .paren :: fs, .type type          => some ⟨.type type :: fs, none⟩
  | .args func [] :: fs, .mark .closing => some ⟨fs, some (.call func [])⟩
  | fs, .word name                    => some ⟨fs, some (.atom name)⟩
  | fs, .literal text                 => some ⟨fs, some (.atom text)⟩
  | fs, .mark .opening                => some ⟨.paren :: fs, none⟩
  | fs, .mark .not                    => some ⟨.lead (.sign .not) :: fs, none⟩
  | fs, .mark .invert                 => some ⟨.lead (.sign .invert) :: fs, none⟩
  | fs, .mark (.infix2 .add)          => some ⟨.lead (.sign .pos) :: fs, none⟩
  | fs, .mark (.infix2 .sub)          => some ⟨.lead (.sign .neg) :: fs, none⟩
  | _, _                              => none

-- A sign behind an operand.
def follow (fs : List Frame) (x : Operation) : Mark → Option Reader
  | .infix2 op =>
    let (fs, x) := reduce op.level fs x
    some ⟨.infix2 x op :: fs, none⟩
  | .question =>
    let (fs, x) := reduce 1 fs x
    some ⟨.test x :: fs, none⟩
  | .opening => some ⟨.args x [] :: fs, none⟩
  | .openBracket => some ⟨.index x :: fs, none⟩
  | .arrow => some ⟨.member x :: fs, none⟩
  | .closing =>
    match reduce 0 fs x with
    | (.paren :: fs, x) => some ⟨fs, some x⟩
    | (.args func before :: fs, x) => some ⟨fs, some (.call func (before ++ [x]))⟩
    | _ => none
  | .closeBracket =>
    match reduce 0 fs x with
    | (.index base :: fs, x) => some ⟨fs, some (.index base x)⟩
    | _ => none
  | .colon =>
    match reduce 0 fs x with
    | (.test c :: fs, x) => some ⟨.branch c x :: fs, none⟩
    | _ => none
  | .comma =>
    match reduce 0 fs x with
    | (.args func before :: fs, x) => some ⟨.args func (before ++ [x]) :: fs, none⟩
    | _ => none
  | .not | .invert => none

def step (r : Reader) (t : Token) : Option Reader :=
  match r.operand, t with
  | none, t         => expect r.frames t
  | some x, .mark m => follow r.frames x m
  | some _, _       => none

def run (ts : List Token) (r : Reader) : Option Reader :=
  ts.foldlM step r

def result? (r : Reader) : Option Operation :=
  match r.operand.map (reduce 0 r.frames) with
  | some ([], x) => some x
  | _            => none

end Reader

-- Reads an expression of C.
def read? (text : String) : Option Operation :=
  Reader.run (lex text.toList) ⟨[], none⟩ >>= Reader.result?

variable {fs gs : List Frame} {ts us : List Token} {x y : Operation} {level : Nat}

-- A bracket was opened, and nothing behind it has been read.
def Fresh (fs : List Frame) : Prop :=
  ∀ f ∈ fs.head?, match f with
    | .paren | .args .. | .index _ | .test _ => True
    | _ => False

-- An operand can stand here, and not only the name of a member or the end of a cast.
def Ready (fs : List Frame) : Prop :=
  ∀ f ∈ fs.head?, match f with
    | .member _ | .type _ => False
    | _ => True

theorem Fresh.ready (h : Fresh fs) : Ready fs := by
  intro f hf
  have := h f hf
  cases f <;> simp_all

theorem Fresh.reduce_eq (h : Fresh fs) : reduce level fs x = (fs, x) := by
  unfold reduce
  split
  case h_4 => rfl
  all_goals exact (h _ rfl).elim

theorem reduce_leads {ps : List Prefix} :
    reduce level (ps.map .lead ++ fs) x = reduce level fs (ps.foldl (fun x p => .lead p x) x) := by
  induction ps generalizing x
  case nil => rfl
  case cons hi => exact hi

namespace Reader

-- Where an operand can stand, a token that begins one is read alike.
theorem expect_eq {t : Token} (h : Ready fs) (hc : t ≠ .mark .closing) (ht : ∀ type, t ≠ .type type) :
    expect fs t = (expect [] t).map fun r => ⟨r.frames ++ fs, r.operand⟩ := by
  obtain _ | ⟨_ | _ | _ | _ | _ | ⟨_, _ | _⟩ | _ | _ | _, fs⟩ := fs
  case nil => simp
  case cons.type | cons.member => exact (h _ rfl).elim
  all_goals
    cases t
    case type type => exact (ht type rfl).elim
    case mark m =>
      cases m
      case closing => exact (hc rfl).elim
      case infix2 op => cases op <;> rfl
      all_goals rfl
    all_goals rfl

theorem expect_word {name : String} (h : Ready fs) : expect fs (.word name) = some ⟨fs, some (.atom name)⟩ :=
  expect_eq h nofun nofun

theorem expect_literal {text : String} (h : Ready fs) :
    expect fs (.literal text) = some ⟨fs, some (.atom text)⟩ :=
  expect_eq h nofun nofun

theorem expect_opening (h : Ready fs) : expect fs (.mark .opening) = some ⟨.paren :: fs, none⟩ :=
  expect_eq h nofun nofun

theorem expect_sign {op : SignOp} (h : Ready fs) :
    expect fs (.mark op.mark) = some ⟨.lead (.sign op) :: fs, none⟩ := by
  cases op
  all_goals exact expect_eq h nofun nofun

theorem run_expect {t : Token} {r : Reader} (h : expect fs t = some r) : run (t :: ts) ⟨fs, none⟩ = run ts r :=
  List.foldlM_cons.trans <| congrArg (· >>= run ts) h

theorem run_append {r q : Reader} (h : run ts r = some q) : run (ts ++ us) r = run us q := by
  rw [run, List.foldlM_append]
  exact congrArg (· >>= run us) h

theorem run_mark {m : Mark} : run (.mark m :: ts) ⟨fs, some x⟩ = follow fs x m >>= run ts :=
  List.foldlM_cons

-- Of two operators in a row the left one is applied first, unless the right one binds more closely.
theorem run_infix2_infix2 {a b c : String} {l r : InfixOp} :
    run [.word a, .mark (.infix2 l), .word b, .mark (.infix2 r), .word c] ⟨[], none⟩ >>= result? =
      some (if r.level ≤ l.level then .infix2 (.infix2 (.atom a) l (.atom b)) r (.atom c)
        else .infix2 (.atom a) l (.infix2 (.atom b) r (.atom c))) := by
  have hl : run [.word a, .mark (.infix2 l), .word b, .mark (.infix2 r), .word c] ⟨[], none⟩ =
      run [.mark (.infix2 r), .word c] ⟨[.infix2 (.atom a) l], some (.atom b)⟩ := rfl
  have hc {x : Operation} {gs : List Frame} :
      run [.word c] ⟨.infix2 x r :: gs, none⟩ = some ⟨.infix2 x r :: gs, some (.atom c)⟩ := rfl
  rw [hl, run_mark, follow]
  by_cases h : r.level ≤ l.level
  all_goals simp [reduce, h, hc, result?]

-- What is behind an operand is applied before a sign that stands in front of it.
theorem run_sign_member {a b : String} {op : SignOp} :
    run [.mark op.mark, .word a, .mark .arrow, .word b] ⟨[], none⟩ >>= result? =
      some (.lead (.sign op) (.member (.atom a) b)) := by
  cases op <;> rfl

end Reader

end PyVerify.Code
