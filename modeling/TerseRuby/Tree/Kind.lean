import TerseRuby.Character.CodePoint

/-!
# Kinds of nodes and their fields

A parse tree is built from a closed set of node kinds.  Each kind has its own list of named
fields, in a fixed order that serialization, traversal and the messages about missing fields all
follow; every kind has a `location` as its first field.  A field either has to be given or has a
default.

This file holds the table.  `Kind.name` and `Field.spelling` are the spellings used in serialized
trees, `Kind.fields` lists the fields of a kind, and the groups of kinds at the end are those that
several parts of the library ask about.
-/

set_option autoImplicit false

namespace TerseRuby

/-! ## Fields -/

/-- The name of a field of some kind of node. -/
inductive Field where
  /-- Where the node was read. -/
  | location
  /-- The statements of a sequence, or the body of a definition or block. -/
  | body
  /-- The statements of a branch, a loop or a file. -/
  | statements
  /-- A name. -/
  | name
  /-- A literal's value, or a value that is assigned, given or taken by default. -/
  | value
  /-- The leading parameters without a default. -/
  | requireds
  /-- The parameters with a default. -/
  | optionals
  /-- The parameter for remaining arguments. -/
  | rest
  /-- The trailing parameters without a default. -/
  | posts
  /-- The parameters given by name. -/
  | keywords
  /-- The parameter for remaining named arguments. -/
  | keywordRest
  /-- A block, a block argument or the parameter for one. -/
  | block
  /-- A parameter list. -/
  | parameters
  /-- The object of a call or definition. -/
  | receiver
  /-- The name of a class or module. -/
  | constantPath
  /-- The class a class extends. -/
  | superclass
  /-- The expression under a keyword or a star. -/
  | expression
  /-- The condition, or the subject of a case. -/
  | predicate
  /-- The branch taken otherwise. -/
  | alternate
  /-- The branches of a case, or the values of a branch. -/
  | conditions
  /-- The variable of a loop. -/
  | index
  /-- What a loop goes over. -/
  | collection
  /-- The exceptions a branch handles. -/
  | exceptions
  /-- The variable an exception is bound to. -/
  | reference
  /-- The branches that handle exceptions. -/
  | rescueClauses
  /-- The branch for no exception. -/
  | elseClause
  /-- The branch that always runs. -/
  | ensureClause
  /-- Arguments. -/
  | arguments
  /-- Whether the call is skipped on nil. -/
  | safeNavigation
  /-- The left operand. -/
  | left
  /-- The right operand. -/
  | right
  /-- Whether an operator is spelled as a word. -/
  | keyword
  /-- The characters of a string. -/
  | content
  /-- The runs and slots of a string. -/
  | parts
  /-- The elements of a literal. -/
  | elements
  /-- The key of an entry. -/
  | key
  /-- Whether a range leaves out its end. -/
  | exclusive
  /-- The namespace of a constant. -/
  | parent
  /-- What a compound assignment changes. -/
  | target
  /-- The spelling of a compound assignment. -/
  | operator
  /-- The text of a comment. -/
  | text
  deriving DecidableEq, Repr

/-- The spelling of a field in serialized trees. -/
def Field.spelling : Field → String
  | .location => "location"
  | .body => "body"
  | .statements => "statements"
  | .name => "name"
  | .value => "value"
  | .requireds => "requireds"
  | .optionals => "optionals"
  | .rest => "rest"
  | .posts => "posts"
  | .keywords => "keywords"
  | .keywordRest => "keyword_rest"
  | .block => "block"
  | .parameters => "parameters"
  | .receiver => "receiver"
  | .constantPath => "constant_path"
  | .superclass => "superclass"
  | .expression => "expression"
  | .predicate => "predicate"
  | .alternate => "alternate"
  | .conditions => "conditions"
  | .index => "index"
  | .collection => "collection"
  | .exceptions => "exceptions"
  | .reference => "reference"
  | .rescueClauses => "rescue_clauses"
  | .elseClause => "else_clause"
  | .ensureClause => "ensure_clause"
  | .arguments => "arguments"
  | .safeNavigation => "safe_navigation"
  | .left => "left"
  | .right => "right"
  | .keyword => "keyword"
  | .content => "content"
  | .parts => "parts"
  | .elements => "elements"
  | .key => "key"
  | .exclusive => "exclusive"
  | .parent => "parent"
  | .target => "target"
  | .operator => "operator"
  | .text => "text"

/-- What a field holds when it is not given. -/
inductive Default where
  /-- The field has to be given. -/
  | required
  /-- No value. -/
  | null
  /-- False. -/
  | no
  /-- The empty sequence. -/
  | empty
  deriving DecidableEq, Repr

/-! ## Kinds -/

/-- The kind of a node. -/
inductive Kind where
  /-- A sequence of statements. -/
  | statements
  /-- A whole file. -/
  | program
  /-- A parameter without a default. -/
  | requiredParameter
  /-- A parameter with a default. -/
  | optionalParameter
  /-- A parameter that takes the remaining arguments. -/
  | restParameter
  /-- A parameter given by name. -/
  | keywordParameter
  /-- A parameter that takes the remaining named arguments. -/
  | keywordRestParameter
  /-- A parameter that takes the block. -/
  | blockParameter
  /-- The parameter list of a method or block. -/
  | parameters
  /-- A method definition. -/
  | methodDef
  /-- A class definition. -/
  | classDef
  /-- The opening of the class of one object. -/
  | singletonClass
  /-- A module definition. -/
  | moduleDef
  /-- The else branch of a conditional, a case or a begin. -/
  | elseBranch
  /-- A conditional; as the alternate of another one, an elsif. -/
  | ifThen
  /-- A negated conditional. -/
  | unlessThen
  /-- A branch of a case. -/
  | whenClause
  /-- A case distinction. -/
  | caseOf
  /-- A loop that runs while its predicate holds. -/
  | whileLoop
  /-- A loop that runs until its predicate holds. -/
  | untilLoop
  /-- A loop over a collection. -/
  | forLoop
  /-- A branch that handles exceptions. -/
  | rescueClause
  /-- The branch that always runs. -/
  | ensureClause
  /-- Statements with exception handling. -/
  | beginBlock
  /-- A literal block attached to a call. -/
  | block
  /-- A block passed as an argument. -/
  | blockArgument
  /-- A method call, operators and index access included. -/
  | call
  /-- A conjunction. -/
  | logicalAnd
  /-- A disjunction. -/
  | logicalOr
  /-- A negation by keyword. -/
  | logicalNot
  /-- A return. -/
  | returnJump
  /-- A break. -/
  | breakJump
  /-- A next. -/
  | nextJump
  /-- A call of the block. -/
  | yieldCall
  /-- A call of the overridden method. -/
  | superCall
  /-- An integer literal. -/
  | integer
  /-- A floating-point literal. -/
  | float
  /-- The literal true. -/
  | trueLiteral
  /-- The literal false. -/
  | falseLiteral
  /-- The literal nil. -/
  | nilLiteral
  /-- The literal self. -/
  | selfLiteral
  /-- A symbol literal. -/
  | symbol
  /-- A string literal, or a literal run of an interpolated one. -/
  | string
  /-- A slot of an interpolated string. -/
  | embedded
  /-- A string literal with slots. -/
  | interpolated
  /-- A spread argument. -/
  | splat
  /-- An array literal. -/
  | array
  /-- An entry of a hash. -/
  | pair
  /-- A spread hash. -/
  | doubleSplat
  /-- A hash literal. -/
  | hash
  /-- Named arguments. -/
  | keywordHash
  /-- A range, possibly without one of its ends. -/
  | range
  /-- Parentheses of the source. -/
  | parentheses
  /-- A local variable. -/
  | localRead
  /-- An assignment to a local variable. -/
  | localWrite
  /-- An instance variable. -/
  | instanceRead
  /-- An assignment to an instance variable. -/
  | instanceWrite
  /-- A global variable. -/
  | globalRead
  /-- An assignment to a global variable. -/
  | globalWrite
  /-- A constant. -/
  | constantRead
  /-- An assignment to a constant. -/
  | constantWrite
  /-- A constant looked up in a namespace. -/
  | constantPath
  /-- A compound assignment. -/
  | operatorWrite
  /-- A line comment. -/
  | comment
  /-- A blank line. -/
  | blankLine
  deriving DecidableEq, Repr

namespace Kind

/-- The spelling of a kind in serialized trees and in messages. -/
def name : Kind → String
  | .statements => "Statements"
  | .program => "Program"
  | .requiredParameter => "RequiredParameter"
  | .optionalParameter => "OptionalParameter"
  | .restParameter => "RestParameter"
  | .keywordParameter => "KeywordParameter"
  | .keywordRestParameter => "KeywordRestParameter"
  | .blockParameter => "BlockParameter"
  | .parameters => "Parameters"
  | .methodDef => "Def"
  | .classDef => "ClassDef"
  | .singletonClass => "SingletonClass"
  | .moduleDef => "ModuleDef"
  | .elseBranch => "Else"
  | .ifThen => "If"
  | .unlessThen => "Unless"
  | .whenClause => "When"
  | .caseOf => "Case"
  | .whileLoop => "While"
  | .untilLoop => "Until"
  | .forLoop => "For"
  | .rescueClause => "Rescue"
  | .ensureClause => "Ensure"
  | .beginBlock => "Begin"
  | .block => "Block"
  | .blockArgument => "BlockArgument"
  | .call => "Call"
  | .logicalAnd => "And"
  | .logicalOr => "Or"
  | .logicalNot => "Not"
  | .returnJump => "Return"
  | .breakJump => "Break"
  | .nextJump => "Next"
  | .yieldCall => "Yield"
  | .superCall => "Super"
  | .integer => "Integer"
  | .float => "Float"
  | .trueLiteral => "TrueLiteral"
  | .falseLiteral => "FalseLiteral"
  | .nilLiteral => "NilLiteral"
  | .selfLiteral => "SelfLiteral"
  | .symbol => "Symbol"
  | .string => "String"
  | .embedded => "EmbeddedStatements"
  | .interpolated => "InterpolatedString"
  | .splat => "Splat"
  | .array => "Array"
  | .pair => "Pair"
  | .doubleSplat => "AssocSplat"
  | .hash => "Hash"
  | .keywordHash => "KeywordHash"
  | .range => "Range"
  | .parentheses => "Parentheses"
  | .localRead => "LocalVariableRead"
  | .localWrite => "LocalVariableWrite"
  | .instanceRead => "InstanceVariableRead"
  | .instanceWrite => "InstanceVariableWrite"
  | .globalRead => "GlobalVariableRead"
  | .globalWrite => "GlobalVariableWrite"
  | .constantRead => "ConstantRead"
  | .constantWrite => "ConstantWrite"
  | .constantPath => "ConstantPath"
  | .operatorWrite => "OperatorWrite"
  | .comment => "Comment"
  | .blankLine => "BlankLine"

/-- All kinds. -/
def all : List Kind :=
  [.statements, .program, .requiredParameter, .optionalParameter, .restParameter,
   .keywordParameter, .keywordRestParameter, .blockParameter, .parameters, .methodDef, .classDef,
   .singletonClass, .moduleDef, .elseBranch, .ifThen, .unlessThen, .whenClause, .caseOf,
   .whileLoop, .untilLoop, .forLoop, .rescueClause, .ensureClause, .beginBlock, .block,
   .blockArgument, .call, .logicalAnd, .logicalOr, .logicalNot, .returnJump, .breakJump,
   .nextJump, .yieldCall, .superCall, .integer, .float, .trueLiteral, .falseLiteral, .nilLiteral,
   .selfLiteral, .symbol, .string, .embedded, .interpolated, .splat, .array, .pair, .doubleSplat,
   .hash, .keywordHash, .range, .parentheses, .localRead, .localWrite, .instanceRead,
   .instanceWrite, .globalRead, .globalWrite, .constantRead, .constantWrite, .constantPath,
   .operatorWrite, .comment, .blankLine]

/-- The kind with a given spelling. -/
def ofName? {σ : Type} [DecidableEq σ] [CodedText σ] (s : σ) : Option Kind :=
  all.find? fun k => CodedText.literal k.name == s

/-- No two kinds are spelled alike. -/
theorem ofName?_name (k : Kind) : ofName? k.name = some k := by
  cases k <;> cbv

/-- The fields of a kind after its location, each with its default. -/
def ownFields : Kind → List (Field × Default)
  | .statements => [(.body, .empty)]
  | .program => [(.statements, .required)]
  | .requiredParameter => [(.name, .required)]
  | .optionalParameter => [(.name, .required), (.value, .required)]
  | .restParameter => [(.name, .null)]
  | .keywordParameter => [(.name, .required), (.value, .null)]
  | .keywordRestParameter => [(.name, .null)]
  | .blockParameter => [(.name, .null)]
  | .parameters =>
    [(.requireds, .empty), (.optionals, .empty), (.rest, .null), (.posts, .empty),
     (.keywords, .empty), (.keywordRest, .null), (.block, .null)]
  | .methodDef => [(.name, .required), (.parameters, .null), (.body, .null), (.receiver, .null)]
  | .classDef => [(.constantPath, .required), (.superclass, .null), (.body, .null)]
  | .singletonClass => [(.expression, .required), (.body, .null)]
  | .moduleDef => [(.constantPath, .required), (.body, .null)]
  | .elseBranch => [(.statements, .null)]
  | .ifThen => [(.predicate, .required), (.statements, .null), (.alternate, .null)]
  | .unlessThen => [(.predicate, .required), (.statements, .null), (.alternate, .null)]
  | .whenClause => [(.conditions, .required), (.statements, .null)]
  | .caseOf => [(.predicate, .required), (.conditions, .required), (.alternate, .null)]
  | .whileLoop => [(.predicate, .required), (.statements, .null)]
  | .untilLoop => [(.predicate, .required), (.statements, .null)]
  | .forLoop => [(.index, .required), (.collection, .required), (.statements, .null)]
  | .rescueClause => [(.exceptions, .empty), (.reference, .null), (.statements, .null)]
  | .ensureClause => [(.statements, .null)]
  | .beginBlock =>
    [(.statements, .null), (.rescueClauses, .empty), (.elseClause, .null), (.ensureClause, .null)]
  | .block => [(.parameters, .null), (.body, .null)]
  | .blockArgument => [(.expression, .null)]
  | .call =>
    [(.receiver, .required), (.name, .required), (.arguments, .empty), (.block, .null),
     (.safeNavigation, .no)]
  | .logicalAnd => [(.left, .required), (.right, .required), (.keyword, .no)]
  | .logicalOr => [(.left, .required), (.right, .required), (.keyword, .no)]
  | .logicalNot => [(.expression, .required)]
  | .returnJump => [(.arguments, .empty)]
  | .breakJump => [(.arguments, .empty)]
  | .nextJump => [(.arguments, .empty)]
  | .yieldCall => [(.arguments, .empty)]
  | .superCall => [(.arguments, .null), (.block, .null)]
  | .integer => [(.value, .required)]
  | .float => [(.value, .required)]
  | .trueLiteral => []
  | .falseLiteral => []
  | .nilLiteral => []
  | .selfLiteral => []
  | .symbol => [(.value, .required)]
  | .string => [(.content, .required)]
  | .embedded => [(.statements, .null)]
  | .interpolated => [(.parts, .required)]
  | .splat => [(.expression, .null)]
  | .array => [(.elements, .empty)]
  | .pair => [(.key, .required), (.value, .required)]
  | .doubleSplat => [(.value, .null)]
  | .hash => [(.elements, .empty)]
  | .keywordHash => [(.elements, .empty)]
  | .range => [(.left, .required), (.right, .required), (.exclusive, .no)]
  | .parentheses => [(.body, .null)]
  | .localRead => [(.name, .required)]
  | .localWrite => [(.name, .required), (.value, .required)]
  | .instanceRead => [(.name, .required)]
  | .instanceWrite => [(.name, .required), (.value, .required)]
  | .globalRead => [(.name, .required)]
  | .globalWrite => [(.name, .required), (.value, .required)]
  | .constantRead => [(.name, .required)]
  | .constantWrite => [(.name, .required), (.value, .required)]
  | .constantPath => [(.parent, .required), (.name, .required)]
  | .operatorWrite => [(.target, .required), (.operator, .required), (.value, .required)]
  | .comment => [(.text, .required)]
  | .blankLine => []

/-- The fields of a kind in order, each with its default. -/
def fields (k : Kind) : List (Field × Default) := (.location, .null) :: k.ownFields

/-- Whether nodes of a kind have a field. -/
def has (k : Kind) (f : Field) : Bool := k.fields.any fun entry => entry.1 == f

/-! ## Groups of kinds -/

/-- Comments and blank lines: they stand between statements and are none. -/
def isTrivia : Kind → Bool
  | .comment | .blankLine => true
  | _ => false

/-- The kinds whose text is closed by their own `end`. -/
def closesWithEnd : Kind → Bool
  | .methodDef | .classDef | .singletonClass | .moduleDef | .ifThen | .unlessThen | .caseOf
  | .whileLoop | .untilLoop | .forLoop | .beginBlock => true
  | _ => false

/-- The kinds that stand only in argument lists and literals. -/
def isElement : Kind → Bool
  | .pair | .doubleSplat | .keywordHash | .splat | .blockArgument => true
  | _ => false

/-- The elements that are no single value: an operator cannot be applied to one of them. -/
def isSpread : Kind → Bool
  | .splat | .blockArgument | .keywordHash | .doubleSplat => true
  | _ => false

/-- Variables and constants, each written as one bare word. -/
def isBareWord : Kind → Bool
  | .localRead | .instanceRead | .globalRead | .constantRead => true
  | _ => false

end Kind
end TerseRuby
