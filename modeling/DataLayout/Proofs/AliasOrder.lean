import DataLayout.Proofs.OwnOutput
import DataLayout.Proofs.Rendering

/-!
# The names of function types

A header names the function types of its file by their positions among themselves, in the order in
which they were written. Different positions have different names.
-/

set_option autoImplicit false

namespace DataLayout

section Rank

variable {fns : List FunctionType} {f : FunctionType} {i id k : Nat}

theorem own_rank_lt (hf : fns[id]? = some f) (hown : f.included = false) (h : id < i) :
    ownRank fns id < ownRank fns i := by
  have hstep : ownRank fns (id + 1) = ownRank fns id + 1 := by
    rw [ownRank, List.take_add_one, hf, List.countP_append, ownRank]
    simp [hown]
  have hle : ownRank fns (id + 1) ≤ ownRank fns i :=
    (List.take_sublist_take_left h).countP_le
  omega

theorem own_rank_injective {g : FunctionType} {j : Nat} (hf : fns[i]? = some f)
    (hfown : f.included = false) (hg : fns[j]? = some g) (hgown : g.included = false)
    (h : ownRank fns i = ownRank fns j) : i = j := by
  rcases Nat.lt_trichotomy i j with hlt | heq | hlt
  · exact absurd h (Nat.ne_of_lt (own_rank_lt hf hfown hlt))
  · exact heq
  · exact absurd h (Nat.ne_of_gt (own_rank_lt hg hgown hlt))

theorem own_rank_lt_length (hf : fns[id]? = some f) (hown : f.included = false) :
    ownRank fns id < (fns.filter (!·.included)).length := by
  have hlt := own_rank_lt hf hown (List.getElem?_eq_some_iff.mp hf).1
  rwa [ownRank.eq_def fns fns.length, List.take_length, List.countP_eq_length_filter] at hlt

end Rank

namespace Header

variable {names : List (Option String)}

theorem forall₂_of_typedef_lines {stem : String} {fns : List FunctionType} {next : Nat}
    {lines : List String} (h : typedefLines names (fns.zip (aliases stem fns next)) = .ok lines) :
    List.Forall₂ (fun f line => typedefLine names f.1 (stem ++ toString f.2) = .ok line)
      ((fns.filter (!·.included)).zipIdx next) lines := by
  induction fns generalizing next lines with
  | nil =>
    cases h
    exact .nil
  | cons f fns ih =>
    by_cases hf : f.included
    · rw [aliases, if_pos hf] at h
      rw [List.filter_cons, if_neg (by simp [hf])]
      exact ih h
    · rw [aliases, if_neg hf] at h
      rw [List.filter_cons, if_pos (by simp [hf]), List.zipIdx_cons]
      obtain ⟨line, hline, h⟩ := except_bind_eq_ok.mp h
      obtain ⟨rest, hrest, h⟩ := except_bind_eq_ok.mp h
      cases h
      exact .cons hline (ih hrest)

end Header

namespace CompilationUnit

def localFunctions (u : CompilationUnit) : List FunctionType := u.functions.filter (!·.included)

def aliasAt (u : CompilationUnit) (k : Nat) : String := Header.aliasStem u.filename ++ toString k

theorem alias_at_injective (u : CompilationUnit) : Function.Injective u.aliasAt := by
  intro j k h
  have hrepr : j.repr = k.repr := (String.append_right_inj _).mp h
  rw [← (Lexeme.numeral_repr j).value, hrepr, (Lexeme.numeral_repr k).value]

end CompilationUnit

end DataLayout
