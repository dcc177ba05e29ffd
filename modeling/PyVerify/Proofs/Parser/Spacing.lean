import PyVerify.Proofs.Parser.Concatenation
import PyVerify.Proofs.Profile.Recast
import PyVerify.Proofs.Token.Spacing

namespace PyVerify

open Token (IsBreak IsEmptyLine BeginsLine)

variable {text other : List Char} {ts us tokens : List Token} {m : Module}

-- Two texts are the same but for places: they have the same tokens, and both or neither of them is a program.
structure Alike (text other : List Char) : Prop where
  tokens  : ∃ ts us, Token.tokenize text = .ok ts ∧ Token.tokenize other = .ok us ∧ us.map Token.kind = ts.map Token.kind
  program : ∀ m, Module.parse text = .ok m → ∃ n, Module.parse other = .ok n ∧
    n.body.map Stmt.unplaced = m.body.map Stmt.unplaced ∧ Profile.ofModule n = Profile.ofModule m
  refused : ∀ e, Module.parse text = .error e → ∃ e', Module.parse other = .error e'

theorem Token.parseModule_of_kinds (h : us.map Token.kind = ts.map Token.kind) (hm : parseModule ts = .ok m) :
    ∃ n, parseModule us = .ok n ∧ n.body.map (Stmt.recast .forget) = m.body.map (Stmt.recast .forget) := by
  obtain ⟨n, hn, hr⟩ := parseModule_recast rfl (Kin.forall₂_forget h.symm) hm
  exact ⟨n, hn, (congrArg Module.body hr).symm⟩

theorem Alike.of_kinds (ht : Token.tokenize text = .ok ts) (hu : Token.tokenize other = .ok us) (h : us.map Token.kind = ts.map Token.kind) :
    Alike text other where
  tokens      := ⟨ts, us, ht, hu, h⟩
  program m hm := by
    obtain ⟨_, ht', hm⟩ := Module.parse_eq_ok_iff.mp hm
    cases ht.symm.trans ht'
    obtain ⟨n, hn, hb⟩ := Token.parseModule_of_kinds h hm
    refine ⟨n, Module.parse_eq_ok_iff.mpr ⟨us, hu, hn⟩, ?_, Profile.ofModule_eq hb⟩
    rwa [funext Stmt.recast_forget_all.left] at hb
  refused e he := by
    cases hn : Module.parse other
    case error e' => exact ⟨e', rfl⟩
    case ok n =>
      obtain ⟨_, hu', hn⟩ := Module.parse_eq_ok_iff.mp hn
      cases hu.symm.trans hu'
      obtain ⟨m, hm, -⟩ := Token.parseModule_of_kinds h.symm hn
      rw [Module.parse_eq_ok_iff.mpr ⟨ts, ht, hm⟩] at he
      cases he

-- Neither a line without tokens in front of a logical line nor a line break at the end of the text changes the program.
theorem alike_of_spacing (h : Token.tokenize text = .ok tokens) :
    (∀ before after line, text = before ++ after → BeginsLine before after tokens → IsEmptyLine line →
      Alike text (before ++ line ++ after)) ∧
    ∀ br, IsBreak br → Alike text (text ++ br) := by
  refine ⟨?_, fun br hb => ?_⟩
  case refine_1 =>
    rintro before after line rfl hb hl
    obtain ⟨us, hu, hk⟩ := Token.tokenize_insert h hb hl
    exact .of_kinds h hu hk
  case refine_2 =>
    obtain ⟨us, hu, hk⟩ := Token.tokenize_append_break h hb
    exact .of_kinds h hu hk

-- A block, and a statement behind it that does not end with its line.
def halting : List Char :=
  "if a:\n  b\nc".toList

def haltingTokens : List Token := [
  ⟨.keyword .kwIf, ⟨0, 2⟩⟩, ⟨.name "a", ⟨3, 1⟩⟩, ⟨.mark .colon, ⟨4, 1⟩⟩, ⟨.newline, ⟨5, 1⟩⟩, ⟨.indent, ⟨6, 2⟩⟩, ⟨.name "b", ⟨8, 1⟩⟩,
  ⟨.newline, ⟨9, 1⟩⟩, ⟨.dedent, ⟨10, 0⟩⟩, ⟨.name "c", ⟨10, 1⟩⟩, ⟨.newline, ⟨11, 0⟩⟩, ⟨.eof, ⟨11, 0⟩⟩]

-- The margin of the comment is wider than that of the block.
theorem halting_alike : Alike halting ("if a:\n".toList ++ "\t# why\r\n".toList ++ "  b\nc".toList) ∧
    Alike halting (halting ++ ['\n']) := by
  have ht : (Token.tokenize halting).toOption.bind some = some haltingTokens := by decide +kernel
  obtain ⟨tokens, ht, he⟩ := exists_ok_of_toOption ht
  cases he
  have hb : BeginsLine "if a:\n".toList "  b\nc".toList haltingTokens := by
    refine ⟨.inr ⟨"if a:".toList, rfl⟩, [' ', ' '], "b\nc".toList, haltingTokens.take 5, _, haltingTokens.drop 6, rfl,
      .blank rfl (.blank rfl .nil), rfl, ?_, ?_, rfl⟩ <;> decide
  have hl : IsEmptyLine "\t# why\r\n".toList :=
    ⟨['\t'], "# why".toList, _, rfl, List.all_eq_true.mp rfl, .inr ⟨" why".toList, rfl, by simp⟩, .inr rfl⟩
  obtain ⟨hi, ha⟩ := alike_of_spacing ht
  exact ⟨hi _ _ _ rfl hb hl, ha _ (.inl rfl)⟩

end PyVerify
