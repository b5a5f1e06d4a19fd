import Mathlib
import ShiftReduce.Language

/-!
Rule bodies as operations on languages. The rules of a grammar are a system of equations, one for each
name they define, and the language of a name is what the least solution gives it. The strings matched
by the rule of a name are the same ones.
-/
namespace ShiftReduce

open Computability

theorem le_mul_kstar (one more : Language Symbol) : one ≤ one * more∗ := by
  calc one = one * 1 := (mul_one one).symm
    _ ≤ one * more∗ := mul_le_mul_right one_le_kstar one

theorem mul_kstar_mul_le (one more : Language Symbol) : one * more∗ * more ≤ one * more∗ := by
  rw [mul_assoc]
  exact mul_le_mul_right kstar_mul_le_kstar one

namespace Rule

mutual

/-- The language of a rule body, where each nonterminal has the language `meaning` gives its name. -/
def language (meaning : String → Language Symbol) : Rule → Language Symbol
  | .symbol name => if (⟨name⟩ : Symbol).isTerminal then {[⟨name⟩]} else meaning name
  | .seq rules => sequence meaning rules
  | .alternatives rules => union meaning rules
  | .many rule => (rule.language meaning)∗
  | .many1 rule => rule.language meaning * (rule.language meaning)∗
  | .optional rule => 1 + rule.language meaning
  | .sepBy separator rule =>
    1 + rule.language meaning * (separator.language meaning * rule.language meaning)∗
  | .sepBy1 separator rule =>
    rule.language meaning * (separator.language meaning * rule.language meaning)∗

def sequence (meaning : String → Language Symbol) : List Rule → Language Symbol
  | [] => 1
  | rule :: rules => rule.language meaning * sequence meaning rules

def union (meaning : String → Language Symbol) : List Rule → Language Symbol
  | [] => 0
  | rule :: rules => rule.language meaning + union meaning rules

end

variable {meaning larger : String → Language Symbol}

theorem le_union {rules : List Rule} {rule : Rule} (mem : rule ∈ rules) :
    rule.language meaning ≤ union meaning rules := by
  induction rules with
  | nil => cases mem
  | cons first rest ih =>
    rw [union]
    obtain rfl | mem := List.mem_cons.mp mem
    · exact le_self_add
    · exact (ih mem).trans le_add_self

theorem union_choices (rule : Rule) : union meaning rule.choices = rule.language meaning := by
  cases rule <;> simp [choices, union, language]

mutual

theorem language_mono (le : meaning ≤ larger) : ∀ rule : Rule,
    rule.language meaning ≤ rule.language larger
  | .symbol name => by
    rw [language, language]
    split
    · exact le_rfl
    · exact le name
  | .seq rules => by
    rw [language, language]
    exact sequence_mono le rules
  | .alternatives rules => by
    rw [language, language]
    exact union_mono le rules
  | .many rule => by
    rw [language, language]
    exact kstar_mono (language_mono le rule)
  | .many1 rule => by
    have inner := language_mono le rule
    rw [language, language]
    exact mul_le_mul' inner (kstar_mono inner)
  | .optional rule => by
    rw [language, language]
    exact add_le_add_right (language_mono le rule) 1
  | .sepBy separator rule => by
    have inner := language_mono le rule
    have between := language_mono le separator
    rw [language, language]
    exact add_le_add_right (mul_le_mul' inner (kstar_mono (mul_le_mul' between inner))) 1
  | .sepBy1 separator rule => by
    have inner := language_mono le rule
    have between := language_mono le separator
    rw [language, language]
    exact mul_le_mul' inner (kstar_mono (mul_le_mul' between inner))

theorem sequence_mono (le : meaning ≤ larger) : ∀ rules : List Rule,
    sequence meaning rules ≤ sequence larger rules
  | [] => le_rfl
  | rule :: rules => by
    rw [sequence, sequence]
    exact mul_le_mul' (language_mono le rule) (sequence_mono le rules)

theorem union_mono (le : meaning ≤ larger) : ∀ rules : List Rule,
    union meaning rules ≤ union larger rules
  | [] => le_rfl
  | rule :: rules => by
    rw [union, union]
    exact add_le_add (language_mono le rule) (union_mono le rules)

end

end Rule

namespace Grammar

/-- One round of the equations: the language of a name becomes that of its rule. -/
def equations (grammar : Grammar) : (String → Language Symbol) →o (String → Language Symbol) where
  toFun meaning name := ⨆ body, ⨆ _ : (name, body) ∈ grammar.rules, body.language meaning
  monotone' _ _ le _ := iSup₂_mono fun body _ => body.language_mono le

/-- The least solution of the equations. -/
def language (grammar : Grammar) : String → Language Symbol := OrderHom.lfp grammar.equations

theorem language_le_of_rule {grammar : Grammar} {name : String} {body : Rule}
    (rule : (name, body) ∈ grammar.rules) :
    body.language grammar.language ≤ grammar.language name := by
  have solved : grammar.equations grammar.language = grammar.language := grammar.equations.map_lfp
  calc body.language grammar.language
      ≤ grammar.equations grammar.language name := le_iSup₂_of_le body rule le_rfl
    _ = grammar.language name := congrFun solved name

theorem language_le {grammar : Grammar} {meaning : String → Language Symbol}
    (solves : ∀ name body, (name, body) ∈ grammar.rules → body.language meaning ≤ meaning name) :
    grammar.language ≤ meaning :=
  OrderHom.lfp_le _ fun name => iSup₂_le fun body rule => solves name body rule

end Grammar

def Rule.matched (rules : List (String × Rule)) (rule : Rule) : Language Symbol :=
  {w | Rule.Matches rules rule w}

namespace Rule

section Matches

variable {grammar : Grammar}

theorem Matches.mem_language {rule : Rule} {w : List Symbol}
    (matched : Rule.Matches grammar.rules rule w) : w ∈ rule.language grammar.language := by
  induction matched with
  | terminal terminal =>
    rw [language, if_pos terminal]
    rfl
  | nonterminal nonterminal mem _ ih =>
    rw [language, if_neg (by simp [nonterminal])]
    exact Grammar.language_le_of_rule mem ih
  | nil =>
    rw [language, sequence]
    exact Language.nil_mem_one
  | cons _ _ first rest =>
    rw [language] at rest ⊢
    rw [sequence]
    exact Language.append_mem_mul first rest
  | choice mem _ ih =>
    rw [language]
    exact le_union mem ih
  | manyNone =>
    rw [language]
    exact Language.nil_mem_kstar _
  | manyMore _ _ front last =>
    rw [language] at front ⊢
    exact (kstar_mul_le_kstar : _ ≤ (Rule.language grammar.language _)∗)
      (Language.append_mem_mul front last)
  | many1One _ ih =>
    rw [language]
    exact le_mul_kstar _ _ ih
  | many1More _ _ front last =>
    rw [language] at front ⊢
    exact mul_kstar_mul_le _ _ (Language.append_mem_mul front last)
  | optionalNone =>
    rw [language]
    exact Or.inl Language.nil_mem_one
  | optionalSome _ ih =>
    rw [language]
    exact Or.inr ih
  | sepBy1One _ ih =>
    rw [language]
    exact le_mul_kstar _ _ ih
  | sepBy1More _ _ _ front apart last =>
    rw [language] at front ⊢
    rw [List.append_assoc]
    exact mul_kstar_mul_le _ _ (Language.append_mem_mul front (Language.append_mem_mul apart last))
  | sepByNone =>
    rw [language]
    exact Or.inl Language.nil_mem_one
  | sepBySome _ ih =>
    rw [language] at ih
    rw [language]
    exact Or.inr ih

section

variable {rules : List (String × Rule)} {body separator : Rule} {one apart : Language Symbol}

theorem matched_choice {choices : List Rule} (mem : body ∈ choices) :
    body.matched rules ≤ matched rules (.alternatives choices) := fun _ => .choice mem

theorem le_matched_many (inner : one ≤ body.matched rules) :
    one∗ ≤ matched rules (.many body) := by
  refine kstar_le_of_mul_le_left ?_ ?_
  · rintro w rfl
    exact .manyNone
  · rintro w ⟨u, front, v, last, rfl⟩
    exact .manyMore front (inner last)

theorem le_matched_many1 (inner : one ≤ body.matched rules) :
    one * one∗ ≤ matched rules (.many1 body) := by
  refine mul_kstar_le ?_ ?_
  · exact fun w mem => .many1One (inner mem)
  · rintro w ⟨u, front, v, last, rfl⟩
    exact .many1More front (inner last)

theorem le_matched_sepBy1 (between : apart ≤ separator.matched rules)
    (inner : one ≤ body.matched rules) :
    one * (apart * one)∗ ≤ matched rules (.sepBy1 separator body) := by
  refine mul_kstar_le ?_ ?_
  · exact fun w mem => .sepBy1One (inner mem)
  · rintro w ⟨u, front, _, ⟨v, middle, last, last_mem, rfl⟩, rfl⟩
    have longer : Matches rules (.sepBy1 separator body) (u ++ v ++ last) :=
      .sepBy1More front (between middle) (inner last_mem)
    rwa [List.append_assoc] at longer

end

variable {meaning : String → Language Symbol}

mutual

theorem language_le_matched (named : ∀ name, (⟨name⟩ : Symbol).isTerminal = false →
    meaning name ≤ matched grammar.rules (.symbol name)) : ∀ rule : Rule,
    rule.language meaning ≤ rule.matched grammar.rules
  | .symbol name => by
    rw [language]
    split
    · rintro w rfl
      exact .terminal ‹_›
    · exact named name (Bool.eq_false_iff.mpr ‹_›)
  | .seq rules => by
    rw [language]
    exact sequence_le_matched named rules
  | .alternatives rules => by
    rw [language]
    exact union_le_matched named rules fun rule mem => matched_choice mem
  | .many rule => by
    rw [language]
    exact le_matched_many (language_le_matched named rule)
  | .many1 rule => by
    rw [language]
    exact le_matched_many1 (language_le_matched named rule)
  | .optional rule => by
    rw [language]
    refine sup_le ?_ fun w mem => .optionalSome (language_le_matched named rule mem)
    rintro w rfl
    exact .optionalNone
  | .sepBy separator rule => by
    have between := language_le_matched named separator
    have inner := language_le_matched named rule
    rw [language]
    refine sup_le ?_ fun w mem => .sepBySome (le_matched_sepBy1 between inner mem)
    rintro w rfl
    exact .sepByNone
  | .sepBy1 separator rule => by
    rw [language]
    exact le_matched_sepBy1 (language_le_matched named separator) (language_le_matched named rule)

theorem sequence_le_matched (named : ∀ name, (⟨name⟩ : Symbol).isTerminal = false →
    meaning name ≤ matched grammar.rules (.symbol name)) : ∀ parts : List Rule,
    sequence meaning parts ≤ matched grammar.rules (.seq parts)
  | [] => by
    rintro w rfl
    exact .nil
  | part :: parts => by
    rw [sequence]
    rintro w ⟨u, first, v, rest, rfl⟩
    exact .cons (language_le_matched named part first) (sequence_le_matched named parts rest)

theorem union_le_matched (named : ∀ name, (⟨name⟩ : Symbol).isTerminal = false →
    meaning name ≤ matched grammar.rules (.symbol name)) {goal : Rule} : ∀ choices : List Rule,
    (∀ choice ∈ choices, choice.matched grammar.rules ≤ goal.matched grammar.rules) →
    union meaning choices ≤ goal.matched grammar.rules
  | [], _ => by
    rw [union]
    exact bot_le
  | choice :: choices, within => by
    rw [union]
    have first := (language_le_matched named choice).trans (within choice List.mem_cons_self)
    have rest : ∀ other ∈ choices, other.matched grammar.rules ≤ goal.matched grammar.rules :=
      fun other mem => within other (List.mem_cons_of_mem choice mem)
    exact sup_le first (union_le_matched named choices rest)

end

end Matches

end Rule

/-- The least solution gives a nonterminal the strings its rule matches. -/
theorem Grammar.mem_language_iff {grammar : Grammar} {name : String} {w : List Symbol}
    (nonterminal : (⟨name⟩ : Symbol).isTerminal = false) :
    w ∈ grammar.language name ↔ grammar.Generates name w := by
  constructor
  · have least : grammar.language ≤ fun name =>
        {w | (⟨name⟩ : Symbol).isTerminal = false → grammar.Generates name w} := by
      refine Grammar.language_le fun name body rule w mem nonterminal => ?_
      refine .nonterminal nonterminal rule (Rule.language_le_matched ?_ body mem)
      intro other other_nonterminal v generated
      exact generated other_nonterminal
    exact fun mem => least name mem nonterminal
  · intro generated
    have mem := generated.mem_language
    rwa [Rule.language, if_neg (by simp [nonterminal])] at mem

end ShiftReduce
