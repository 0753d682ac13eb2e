import Bindery.Proofs.Displacement.Page
import Bindery.Proofs.Page.Entering
import Bindery.Proofs.Section.Unfolding
import Bindery.Storage.Shelf
import Mathlib.Logic.Relation

/-!
# `Proofs.Section.IncludeGraph` — which document includes which

The entries of a document lead to the same documents wherever it is included. So a document that includes itself, however
far round, would unfold for ever, and one that unfolds does not: below it no chain of includes comes back. This is why
looking for cycles never turns a tree away that could have been completed.

## Contents
- `Includes`: one document includes another.
- `Unfolds.acc`: nothing unfolds for ever.
- `Admits.of_unfolds`: an unfolding that some settings admit is admitted by all that reach as deep.
- `resolve_of_deeper_settings`: the guards never change a successful result.
-/

namespace Bindery

open Relation

variable {σ : Type} [Store σ] {store : σ} {settings : Settings} {p q : DocumentPath}

/-- The document at `p` can be read on its own, and has an entry for the document at `q`. -/
def Includes (store : σ) (p q : DocumentPath) : Prop :=
  ∃ text page, Store.read store p.text = .ok text ∧
    (Page.ofText ⟨p.text, 1, 1⟩ text Table.new).1 = .ok (some page) ∧
    ∃ entry ∈ page.entries, entry.path = q

theorem includes_iff_said :
    Includes store p q ↔ ∃ text page, Store.read store p.text = .ok text ∧
      Page.said ⟨p.text, 1, 1⟩ text = .ok (some page) ∧ ∃ entry ∈ page.entries, entry.path = q := by
  have hsaid (text : String) (page : Option Page) :
      (Page.ofText ⟨p.text, 1, 1⟩ text Table.new).1 = .ok page ↔
        Page.said ⟨p.text, 1, 1⟩ text = .ok page :=
    Page.ofText_new_eq_ok_iff Nat.le.refl Nat.le.refl
  simp only [Includes, hsaid]

/-- A document has entries for the same documents at every depth and index. -/
theorem includes_iff_reads {document : Coordinate} (hpath : document.path = p.text) :
    Includes store p q ↔ ∃ page notes, Reads store document (some page) notes ∧
      ∃ entry ∈ page.entries, entry.path = q := by
  have hmoved (text : String) := Page.said_displace ⟨p.text, 1, 1⟩ document hpath text
  have hback (text : String) := Page.said_displace document ⟨p.text, 1, 1⟩ hpath.symm text
  rw [includes_iff_said]
  constructor
  · rintro ⟨text, page, htext, hsaid, entry, hentry, rfl⟩
    have hhere := hmoved text
    rw [hsaid] at hhere
    obtain ⟨notes, hread⟩ := Page.said_eq_ok_iff.1 hhere
    refine ⟨_, notes, ⟨text, hpath ▸ htext, hread⟩, entry.displace (.into document), ?_, rfl⟩
    exact List.mem_map_of_mem hentry
  · rintro ⟨page, notes, ⟨text, htext, hread⟩, entry, hentry, rfl⟩
    have hthere := hback text
    rw [Page.said_eq_ok_iff.2 ⟨notes, hread⟩] at hthere
    refine ⟨text, _, hpath ▸ htext, hthere, entry.displace (.into ⟨p.text, 1, 1⟩), ?_, rfl⟩
    exact List.mem_map_of_mem hentry

/-! ## Nothing unfolds for ever -/

/-- Below a document that unfolds, every chain of includes ends. -/
theorem Unfolds.acc {document : Coordinate} {tree : Option Section} {notes : List Note}
    (h : Unfolds store document tree notes) (hpath : document.path = p.text) :
    Acc (fun q p => Includes store p q) p := by
  induction h generalizing p with
  | nothing hread =>
    refine .intro p fun q hincludes => ?_
    obtain ⟨page, notes, hread', -⟩ := (includes_iff_reads hpath).1 hincludes
    cases (hread.unique hread').1
  | page hread hentries hbelow ih =>
    refine .intro p fun q hincludes => ?_
    obtain ⟨page, notes, hread', entry, hentry, rfl⟩ := (includes_iff_reads hpath).1 hincludes
    cases (hread.unique hread').1
    rw [← hentries] at hentry
    obtain ⟨f, hf, rfl⟩ := List.mem_map.1 hentry
    obtain ⟨i, hi⟩ := List.mem_iff_getElem?.1 hf
    exact ih i f hi rfl

theorem acc_of_reflTransGen (h : Acc (fun q p => Includes store p q) p)
    (hreach : ReflTransGen (Includes store) p q) : Acc (fun q p => Includes store p q) q := by
  induction hreach with
  | refl => exact h
  | tail _ hstep ih => exact ih.inv hstep

/-- A document below which every chain of includes ends does not include itself, however far round. -/
theorem not_transGen_self_of_acc (h : Acc (fun q p => Includes store p q) p) :
    ¬TransGen (Includes store) p p := by
  induction h with
  | intro p _ ih =>
    -- the next document on the cycle lies on one too, and is below
    intro hcycle
    obtain ⟨q, hstep, hback⟩ := TransGen.head'_iff.1 hcycle
    exact ih q hstep (TransGen.tail' hback hstep)

/-! ## The guards -/

/-- An unfolding that is admitted by some settings, in a chain of documents each of which led to the next, is admitted by all
settings that reach as deep. -/
theorem Admits.of_unfolds {settings' : Settings} {document : Coordinate} {tree : Option Section}
    {notes : List Note} (hunfolds : Unfolds store document tree notes)
    (hpath : document.path = p.text) {chain : List DocumentPath}
    (hchain : ∀ a ∈ chain, ReflTransGen (Includes store) a p) {remaining remaining' : Nat}
    (hdeeper : remaining ≤ remaining') (h : Admits settings remaining chain tree) :
    Admits settings' remaining' chain tree := by
  induction hunfolds generalizing p chain remaining remaining' with
  | nothing hread => exact .nothing
  | @page document page notes found hread hentries hbelow ih =>
    have hincludes (f : Found) (hf : f ∈ found) : Includes store p f.entry.path := by
      refine (includes_iff_reads hpath).2 ⟨page, notes, hread, f.entry, ?_, rfl⟩
      rw [← hentries]
      exact List.mem_map_of_mem hf
    cases h with
    | tree hroom hcycle hadmits =>
      refine .tree (fun included hmem => ?_) (fun included hmem _ hback => ?_)
        (fun included hmem => ?_)
      · exact Nat.lt_of_lt_of_le (hroom included hmem) hdeeper
      · -- an entry that leads back into the chain would close a cycle of includes
        obtain ⟨i, f, hf, rfl⟩ := exists_found_of_mem hmem
        refine not_transGen_self_of_acc ((hbelow i f hf).acc rfl) ?_
        exact TransGen.tail' (hchain _ hback) (hincludes f (List.mem_of_getElem? hf))
      · obtain ⟨i, f, hf, rfl⟩ := exists_found_of_mem hmem
        refine ih i f hf rfl (fun a ha => ?_) (Nat.sub_le_sub_right hdeeper 1) (hadmits _ hmem)
        rcases List.mem_append.1 ha with ha | ha
        · exact (hchain a ha).tail (hincludes f (List.mem_of_getElem? hf))
        · rw [List.mem_singleton.1 ha]
          exact .refl

/-- **The guards never change a successful result**: a tree that was completed is completed in the same way, with or
without a look for cycles, by all settings that reach as deep; and no document that it leads to includes itself, however
far round. -/
theorem resolve_of_deeper_settings {path : DocumentPath} {table after : Table} {later : σ}
    {tree : Option Section}
    (h : ((Section.resolve settings path).exec table).run store = ((.ok tree, after), later)) :
    (∀ settings' : Settings, settings.maxIncludeDepth ≤ settings'.maxIncludeDepth →
      ((Section.resolve settings' path).exec table).run store = ((.ok tree, after), later)) ∧
    ∀ p, ReflTransGen (Includes store) path p → ¬TransGen (Includes store) p p := by
  obtain ⟨rfl, notes, hunfolds, hadmits, hentered⟩ := resolve_yields_iff.1 h
  constructor
  · intro settings' hdeeper
    refine resolve_yields_iff.2 ⟨rfl, notes, hunfolds, ?_, hentered⟩
    refine Admits.of_unfolds hunfolds rfl (fun a ha => ?_) (Nat.sub_le_sub_right hdeeper 1) hadmits
    rw [List.mem_singleton.1 ha]
  · intro p hreach
    exact not_transGen_self_of_acc (acc_of_reflTransGen (hunfolds.acc rfl) hreach)

/-- Three documents, the last of which is included by both others. -/
def sharedShelf : Shelf where
  files :=
    [("/a.dlisp", "(section-meta (title A) (include (1 b.dlisp) (2 c.dlisp)))"),
     ("/b.dlisp", "(section-meta (title B) (include (1 c.dlisp)))"),
     ("/c.dlisp", "(# C)")]
  readOnly := []

/-- A document that is reached in two ways is no cycle: what is completed without a look for cycles is completed with it. -/
theorem resolve_sharedShelf : ∃ tree after later,
    ((Section.resolve ⟨false, 3⟩ (.resolve "/a.dlisp" "/")).exec Table.new).run sharedShelf =
      ((.ok (some tree), after), later) ∧
    tree.includes.map (·.1.path.text) = ["/b.dlisp", "/c.dlisp"] ∧
    ((Section.resolve ⟨true, 64⟩ (.resolve "/a.dlisp" "/")).exec Table.new).run sharedShelf =
      ((.ok (some tree), after), later) ∧
    ¬TransGen (Includes sharedShelf) (.resolve "/a.dlisp" "/") (.resolve "/a.dlisp" "/") := by
  have hfound : (((Section.resolve ⟨false, 3⟩ (.resolve "/a.dlisp" "/")).exec Table.new).run
      sharedShelf).1.1.toOption.map (Option.map fun tree => tree.includes.map (·.1.path.text)) =
        some (some ["/b.dlisp", "/c.dlisp"]) := by
    decide +kernel
  generalize hrun : ((Section.resolve ⟨false, 3⟩ (.resolve "/a.dlisp" "/")).exec Table.new).run
    sharedShelf = run at hfound
  obtain ⟨⟨result, after⟩, later⟩ := run
  obtain ⟨root, rfl, hroot⟩ := exists_ok_of_map hfound
  obtain ⟨tree, rfl, hincludes⟩ := Option.map_eq_some_iff.1 hroot
  obtain ⟨hguards, hcycles⟩ := resolve_of_deeper_settings hrun
  exact ⟨tree, after, later, rfl, hincludes, hguards ⟨true, 64⟩ (by decide), hcycles _ .refl⟩

end Bindery
