import ShiftReduce.Grammar
import ShiftReduce.Symbol

/-!
What a rule body means by itself, without productions: the strings of terminals it matches, where a
nonterminal stands for what its rule matches.
-/
namespace ShiftReduce

inductive Rule.Matches (rules : List (String × Rule)) : Rule → List Symbol → Prop where
  | terminal {name : String} : (⟨name⟩ : Symbol).isTerminal = true →
      Matches rules (.symbol name) [⟨name⟩]
  | nonterminal {name : String} {body : Rule} {w : List Symbol} :
      (⟨name⟩ : Symbol).isTerminal = false → (name, body) ∈ rules → Matches rules body w →
      Matches rules (.symbol name) w
  | nil : Matches rules (.seq []) []
  | cons {part : Rule} {parts : List Rule} {u v : List Symbol} :
      Matches rules part u → Matches rules (.seq parts) v →
      Matches rules (.seq (part :: parts)) (u ++ v)
  | choice {choice : Rule} {choices : List Rule} {w : List Symbol} :
      choice ∈ choices → Matches rules choice w → Matches rules (.alternatives choices) w
  | manyNone {body : Rule} : Matches rules (.many body) []
  | manyMore {body : Rule} {u v : List Symbol} :
      Matches rules (.many body) u → Matches rules body v → Matches rules (.many body) (u ++ v)
  | many1One {body : Rule} {w : List Symbol} : Matches rules body w → Matches rules (.many1 body) w
  | many1More {body : Rule} {u v : List Symbol} :
      Matches rules (.many1 body) u → Matches rules body v → Matches rules (.many1 body) (u ++ v)
  | optionalNone {body : Rule} : Matches rules (.optional body) []
  | optionalSome {body : Rule} {w : List Symbol} :
      Matches rules body w → Matches rules (.optional body) w
  | sepBy1One {separator body : Rule} {w : List Symbol} :
      Matches rules body w → Matches rules (.sepBy1 separator body) w
  | sepBy1More {separator body : Rule} {u v w : List Symbol} :
      Matches rules (.sepBy1 separator body) u → Matches rules separator v → Matches rules body w →
      Matches rules (.sepBy1 separator body) (u ++ v ++ w)
  | sepByNone {separator body : Rule} : Matches rules (.sepBy separator body) []
  | sepBySome {separator body : Rule} {w : List Symbol} :
      Matches rules (.sepBy1 separator body) w → Matches rules (.sepBy separator body) w

/-- The strings that the rule named `name` matches. -/
def Grammar.Generates (grammar : Grammar) (name : String) (w : List Symbol) : Prop :=
  Rule.Matches grammar.rules (.symbol name) w

end ShiftReduce
