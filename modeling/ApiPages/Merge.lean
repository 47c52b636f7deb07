import ApiPages.Correction

/-!
# Merging files

The namespaces of several files become one collection. A namespace that occurs in more than one
file has the members of all of them in the order of the files, and the first assembly that any of
these files names.
-/
namespace ApiPages

/-- The documents of one namespace from two files, in the order of the files. -/
def NamespaceDocument.merge (earlier later : NamespaceDocument) : NamespaceDocument where
  assembly := earlier.assembly <|> later.assembly
  members := earlier.members ++ later.members

namespace Namespaces

/-- Joins the document of one namespace to a collection. -/
def add (merged : Namespaces) (entry : Text × NamespaceDocument) : Namespaces :=
  match merged.get? entry.1 with
  | some earlier => merged.insert entry.1 (earlier.merge entry.2)
  | none => merged.insert entry.1 entry.2

/-- Joins all documents of a file to a collection. -/
def addAll (merged later : Namespaces) : Namespaces := later.entries.foldl add merged

/-- Joins the documents of named files in their order. -/
def merge (files : List (Text × Namespaces)) : Namespaces :=
  files.foldl (fun merged file => merged.addAll file.2) .empty

/-- What a merge of named files reports. -/
def mergeEvents (files : List (Text × Namespaces)) : List Event :=
  files.map fun file => .merging file.1 file.2.size

end Namespaces
end ApiPages
