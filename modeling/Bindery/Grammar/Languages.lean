import Bindery.Grammar

/-!
# `Grammar.Languages` — the two directive languages

## Contents
- `Grammar.document`: directives of documents.
- `Grammar.project`: the list of a project's documents.
-/

namespace Bindery
namespace Grammar

/-- A title, and what else is said about a section: where it can be found and what it includes. -/
def sectionMeta : Rule :=
  .exactly "section-meta" .never
    [(.exactly "title" .required [], .once),
     (.exactly "subtitle" .required [], .atMostOnce),
     (.exactly "ref-link" .required [], .atMostOnce),
     (.exactly "author" .required [], .many),
     (.exactly "id" .required [], .atMostOnce),
     (.exactly "include" .never [(⟨"include entry", .anyAtom, .required, []⟩, .many)], .atMostOnce)]

/-- Where included sections go, perhaps below a table of contents. -/
def content : Rule :=
  .exactly "content" .never
    [(.exactly "toc" .optional
        [(.exactly "label" .required [], .atMostOnce),
         (.exactly "style" .required [], .atMostOnce)], .atMostOnce)]

/-- The directives of documents. -/
def document : Grammar where
  name := "the document root"
  allowsProse := true
  root :=
    [(sectionMeta, .atMostOnce),
     (content, .atMostOnce),
     (⟨"#", .heading, .required, []⟩, .many),
     (.exactly "get-path" .required [], .many)]

/-- What is said about a document of a project: its source, where its output goes, and its id. -/
def documentFields : List (Rule × Occurrence) :=
  [(.exactly "source" .required [], .once),
   (.exactly "output" .required [], .once),
   (.exactly "id" .required [], .atMostOnce)]

/-- A document of a project. -/
def listedDocument : Rule := .exactly "document" .never documentFields

/-- The documents of a project. -/
def listedDocuments : Rule := .exactly "documents" .never [(listedDocument, .atLeastOnce)]

/-- The directives of a project: the sources of its documents and where their outputs go. -/
def project : Grammar where
  name := "the project root"
  allowsProse := false
  root := [(listedDocuments, .once)]

end Grammar
end Bindery
