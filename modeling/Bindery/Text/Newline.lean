/-!
# `Text.Newline` — one spelling of a line end

Sources may end lines with a line feed, a carriage return or both. Everything downstream sees line feeds only.
-/

namespace Bindery
namespace Text

/-- Every line end as a single line feed. -/
def unifyNewlines : List Char → List Char
  | [] => []
  | '\r' :: '\n' :: rest => '\n' :: unifyNewlines rest
  | '\r' :: rest => '\n' :: unifyNewlines rest
  | c :: rest => c :: unifyNewlines rest

/-- No carriage return is left. -/
theorem not_mem_unifyNewlines (cs : List Char) : '\r' ∉ unifyNewlines cs := by
  fun_induction unifyNewlines cs with
  | case1 => simp
  | case2 rest ih => simp [ih]
  | case3 rest _ ih => simp [ih]
  | case4 c rest _ hc ih => simp [ih, Ne.symm hc]

end Text
end Bindery
