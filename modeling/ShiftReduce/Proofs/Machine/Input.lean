import ShiftReduce.Machine

/-!
The input as the machine sees it: a sentence of symbols, read one token at a time, with the end marker
behind it.
-/
namespace ShiftReduce

/-- The symbols of a token list before its first end marker. -/
def Token.sentence (tokens : List Token) : List Symbol :=
  (tokens.map (·.symbol)).takeWhile fun symbol => !symbol.isEof

theorem Token.eof_notMem_sentence (tokens : List Token) : Symbol.eof ∉ Token.sentence tokens := by
  intro mem
  have passed := List.all_eq_true.mp List.all_takeWhile _ mem
  simp [Symbol.isEof_iff.mpr] at passed

theorem Token.sentence_of_symbols {symbols : List Symbol} (unended : Symbol.eof ∉ symbols) :
    Token.sentence (symbols.map fun symbol => ⟨symbol, symbol.name⟩) = symbols := by
  induction symbols with
  | nil => rfl
  | cons symbol rest ih =>
    rw [List.mem_cons, not_or] at unended
    have other : symbol.isEof = false := by
      rw [← Bool.not_eq_true, Symbol.isEof_iff]
      exact fun same => unended.1 same.symm
    have tail := ih unended.2
    rw [Token.sentence] at tail ⊢
    rw [List.map_cons, List.map_cons, List.takeWhile_cons_of_pos (by simp [other]), tail]

theorem Token.length_sentence_le (tokens : List Token) :
    (Token.sentence tokens).length ≤ tokens.length := by
  have taken := List.Sublist.length_le
    (List.takeWhile_sublist (l := tokens.map (·.symbol)) fun symbol => !symbol.isEof)
  rwa [List.length_map] at taken

theorem Token.exists_continuation {tokens : List Token} {count : Nat}
    (within : count ≤ (Token.sentence tokens).length) {rest : List Symbol}
    (unended : Symbol.eof ∉ rest) :
    ∃ other, Token.sentence other = (Token.sentence tokens).take count ++ rest ∧
      ∀ i < count, other.getD i Token.eof = tokens.getD i Token.eof := by
  refine ⟨tokens.take count ++ rest.map fun symbol => ⟨symbol, symbol.name⟩, ?_, ?_⟩
  · obtain ⟨after, whole⟩ := List.takeWhile_prefix (l := tokens.map (·.symbol)) (!·.isEof)
    have front : (tokens.take count).map (·.symbol) = (Token.sentence tokens).take count := by
      rw [List.map_take, ← whole]
      exact List.take_append_of_le_length within
    have passed : ∀ symbol ∈ (Token.sentence tokens).take count, (!symbol.isEof) = true :=
      fun symbol mem => List.all_eq_true.mp List.all_takeWhile symbol (List.mem_of_mem_take mem)
    rw [Token.sentence, List.map_append, front, List.takeWhile_append_of_pos passed]
    exact congrArg _ (Token.sentence_of_symbols unended)
  · intro i before
    have inside : i < (tokens.take count).length := by
      have short := Token.length_sentence_le tokens
      rw [List.length_take]
      omega
    simp only [List.getD_eq_getElem?_getD]
    rw [List.getElem?_append_left inside, List.getElem?_take_of_lt before]

theorem TokenSource.take_eq (source : TokenSource) (count : Nat) :
    source.take count = (List.range count).map fun i => source.tokenAt (source.pulled + i) := by
  induction count generalizing source with
  | zero => rfl
  | succ count ih =>
    rw [List.range_succ_eq_map, List.map_cons, List.map_map]
    simp only [take, next, ih, Nat.add_zero]
    congr 2
    funext i
    simp only [Function.comp_apply, Nat.succ_eq_add_one]
    congr 1
    omega

theorem TokenSource.take_sentence (tokens : List Token) :
    ((TokenSource.ofList tokens).take ((Token.sentence tokens).length + 1)).map (·.symbol)
      = Token.sentence tokens ++ [Symbol.eof] := by
  simp only [take_eq, ofList, Nat.zero_add]
  induction tokens with
  | nil => rfl
  | cons token rest ih =>
    by_cases ends : token.symbol.isEof = true
    · have nothing : Token.sentence (token :: rest) = [] := by simp [Token.sentence, ends]
      rw [nothing]
      simpa using Symbol.isEof_iff.mp ends
    · have more : Token.sentence (token :: rest) = token.symbol :: Token.sentence rest := by
        simp [Token.sentence, ends]
      rw [more, List.length_cons, List.range_succ_eq_map, List.cons_append, ← ih]
      simp only [List.map_cons, List.map_map, Function.comp_def, List.getD_cons_zero,
        Nat.succ_eq_add_one, List.getD_cons_succ]

namespace Machine.Config

/-- The tokens still to be read, the lookahead included, have the symbols `remaining`, and then the
end marker comes. -/
def Awaits (config : Config) (remaining : List Symbol) : Prop :=
  (config.lookahead :: config.source.take remaining.length).map (·.symbol)
    = remaining ++ [Symbol.eof]

variable {config : Config} {symbol : Symbol} {remaining : List Symbol}

theorem Awaits.lookahead_eq (awaits : config.Awaits (symbol :: remaining)) :
    config.lookahead.symbol = symbol := by
  unfold Awaits at awaits
  rw [List.map_cons, List.cons_append] at awaits
  exact (List.cons.inj awaits).1

theorem Awaits.eof (awaits : config.Awaits []) : config.lookahead.symbol = Symbol.eof := by
  unfold Awaits at awaits
  simpa [TokenSource.take] using awaits

theorem Awaits.head (awaits : config.Awaits remaining) :
    (remaining ++ [Symbol.eof]).head? = some config.lookahead.symbol := by
  unfold Awaits at awaits
  rw [← awaits]
  rfl

theorem Awaits.shift (awaits : config.Awaits (symbol :: remaining)) (target : Nat) :
    (config.shift target).Awaits remaining := by
  unfold Awaits at awaits ⊢
  rw [List.map_cons, List.cons_append] at awaits
  exact (List.cons.inj awaits).2

theorem Awaits.unique {other : List Symbol} (awaits : config.Awaits remaining)
    (awaits_other : config.Awaits other) (unended : Symbol.eof ∉ remaining)
    (other_unended : Symbol.eof ∉ other) : remaining = other := by
  induction remaining generalizing config other with
  | nil =>
    cases other with
    | nil => rfl
    | cons symbol rest =>
      rw [← awaits.eof, awaits_other.lookahead_eq] at other_unended
      simp at other_unended
  | cons symbol rest ih =>
    cases other with
    | nil =>
      rw [← awaits_other.eof, awaits.lookahead_eq] at unended
      simp at unended
    | cons first others =>
      rw [List.mem_cons, not_or] at unended other_unended
      rw [ih (awaits.shift 0) (awaits_other.shift 0) unended.2 other_unended.2,
        ← awaits.lookahead_eq, ← awaits_other.lookahead_eq]

theorem awaits_start (root : Nat) (tokens : List Token) :
    (Config.start root (.ofList tokens)).Awaits (Token.sentence tokens) :=
  TokenSource.take_sentence tokens

end Machine.Config

end ShiftReduce
