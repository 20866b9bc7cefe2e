import SymbolAtlas.Symbol.Kind

/-!
# Types of syntax nodes

The node types that declare symbols or enclose declarations, over all grammars; any other type keeps
its name. The tables below say which types count as functions, classes, members and so on.
-/

namespace SymbolAtlas

/-- The type of a syntax node. -/
inductive NodeType where
  | functionDeclaration
  | generatorFunctionDeclaration
  | functionDefinition
  | methodDefinition
  | classDeclaration
  | abstractClassDeclaration
  | classDefinition
  | classSpecifier
  | structSpecifier
  | variableDeclarator
  | lexicalDeclaration
  | variableDeclaration
  | exportStatement
  | preprocIfdef
  | preprocIf
  | preprocElse
  | preprocElif
  | templateDeclaration
  | decoratedDefinition
  | fieldDefinition
  | publicFieldDefinition
  | propertyDefinition
  | fieldDeclaration
  | assignment
  | other (name : Text)
deriving DecidableEq

namespace NodeType

/-- The types with a meaning of their own, with their names. -/
def named : List (Text × NodeType) :=
  [("function_declaration", functionDeclaration),
   ("generator_function_declaration", generatorFunctionDeclaration),
   ("function_definition", functionDefinition),
   ("method_definition", methodDefinition),
   ("class_declaration", classDeclaration),
   ("abstract_class_declaration", abstractClassDeclaration),
   ("class_definition", classDefinition),
   ("class_specifier", classSpecifier),
   ("struct_specifier", structSpecifier),
   ("variable_declarator", variableDeclarator),
   ("lexical_declaration", lexicalDeclaration),
   ("variable_declaration", variableDeclaration),
   ("export_statement", exportStatement),
   ("preproc_ifdef", preprocIfdef),
   ("preproc_if", preprocIf),
   ("preproc_else", preprocElse),
   ("preproc_elif", preprocElif),
   ("template_declaration", templateDeclaration),
   ("decorated_definition", decoratedDefinition),
   ("field_definition", fieldDefinition),
   ("public_field_definition", publicFieldDefinition),
   ("property_definition", propertyDefinition),
   ("field_declaration", fieldDeclaration),
   ("assignment", assignment)]

/-- The type with the given name. -/
def ofName (t : Text) : NodeType :=
  match named.find? fun e => e.1 = t with
  | some e => e.2
  | none => other t

def name (type : NodeType) : Text :=
  match type with
  | other t => t
  | _ => ((named.find? fun e => e.2 = type).map (·.1)).getD []

/-- Functions, generators among them. -/
def isFunction : NodeType → Bool
  | functionDeclaration | generatorFunctionDeclaration | functionDefinition => true
  | _ => false

/-- Classes; structs do not count. -/
def isClass : NodeType → Bool
  | classDeclaration | abstractClassDeclaration | classDefinition | classSpecifier => true
  | _ => false

def isVariableDeclaration : NodeType → Bool
  | lexicalDeclaration | variableDeclaration => true
  | _ => false

/-- Blocks whose children count as if they stood in the block's place. -/
def isTransparentBlock : NodeType → Bool
  | preprocIfdef | preprocIf | preprocElse | preprocElif | templateDeclaration => true
  | _ => false

/-- The kind of symbol that a declaration of the type introduces. -/
def kind? : NodeType → Option SymbolKind
  | functionDeclaration | generatorFunctionDeclaration | functionDefinition => some .function
  | methodDefinition => some .method
  | classDeclaration | abstractClassDeclaration | classDefinition | classSpecifier => some .class_
  | structSpecifier => some .struct
  | variableDeclarator | lexicalDeclaration | variableDeclaration => some .variable_
  | exportStatement => some .export_
  | _ => none

/-- Whether a top-level declaration of the type can be asked for under the kind. -/
def declares (type : NodeType) : SymbolKind → Bool
  | .function => type.isFunction
  | .class_ => type.isClass
  | .struct => type = structSpecifier
  | .variable_ => type.isVariableDeclaration
  | .export_ => type = exportStatement
  | .method | .constructor | .property => false

/-- Methods, and functions where they stand for methods. -/
def isMethod : NodeType → Bool
  | methodDefinition | functionDefinition => true
  | _ => false

def isMember : NodeType → Bool
  | methodDefinition | functionDefinition | fieldDefinition | publicFieldDefinition
  | propertyDefinition | fieldDeclaration | assignment => true
  | _ => false

/-- Whether a node of the type inside a class can be asked for under the kind. -/
def isMemberOfKind (type : NodeType) : SymbolKind → Bool
  | .method | .constructor => type.isMethod
  | .property => type.isMember
  | kind => type.declares kind

end NodeType

end SymbolAtlas
