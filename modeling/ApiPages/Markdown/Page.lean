import ApiPages.Markdown.Renderers

/-!
# Pages

The page of a namespace is its index, if one is asked for, then the title of its assembly, then the
sections of its members. A page is stored under the name of its namespace.
-/
namespace ApiPages.Markdown

/-- The page of a namespace, rendered by a pool. -/
def page (pool : Pool) (document : NamespaceDocument) : Text :=
  (if pool.options.withIndex then index pool.options.newline.text document.members else []) ++
    (document.assembly.map pool.render).getD [] ++ document.members.flatMap pool.render

/-- The pages of all namespaces, rendered by the default pool. -/
def pages (options : Options) (namespaces : Namespaces) : Dict Text :=
  namespaces.mapValues (page (defaultPool options))

/-- The name under which the page of a namespace is stored. -/
def pageName (space : Text) : Text := if space = [] then "_global".toList else space

end ApiPages.Markdown
