import Lox.Number.Binary64

/-!
# Tokens and values

A token is a lexeme together with its kind and the line on which it ends. The three are
independent: nothing asks that a token's lexeme spells its kind, though every scanned token's does.
Symbols have one spelling each; keywords are the words that cannot be names.

Values are what an expression evaluates to: `nil`, a truth value, a number or a string. Values of
different kinds are never equal, and numbers are compared as numbers, so that a value that is no
number differs from itself and the two zeros are equal.
-/

set_option autoImplicit false
set_option relaxedAutoImplicit false

namespace Lox

/-! ### Symbols -/

inductive Symbol
  | leftParen
  | rightParen
  | leftBrace
  | rightBrace
  | comma
  | dot
  | minus
  | plus
  | semicolon
  | slash
  | star
  | bang
  | bangEqual
  | equal
  | equalEqual
  | greater
  | greaterEqual
  | less
  | lessEqual
deriving DecidableEq

namespace Symbol

def characters : Symbol → List Char
  | leftParen => ['(']
  | rightParen => [')']
  | leftBrace => ['\x7b']
  | rightBrace => ['\x7d']
  | comma => [',']
  | dot => ['.']
  | minus => ['-']
  | plus => ['+']
  | semicolon => [';']
  | slash => ['/']
  | star => ['*']
  | bang => ['!']
  | bangEqual => ['!', '=']
  | equal => ['=']
  | equalEqual => ['=', '=']
  | greater => ['>']
  | greaterEqual => ['>', '=']
  | less => ['<']
  | lessEqual => ['<', '=']

/-- The symbol that a single character spells. -/
def ofChar? : Char → Option Symbol
  | '(' => some leftParen
  | ')' => some rightParen
  | '\x7b' => some leftBrace
  | '\x7d' => some rightBrace
  | ',' => some comma
  | '.' => some dot
  | '-' => some minus
  | '+' => some plus
  | ';' => some semicolon
  | '/' => some slash
  | '*' => some star
  | '!' => some bang
  | '=' => some equal
  | '>' => some greater
  | '<' => some less
  | _ => none

/-- The symbol that a symbol becomes when an equals sign follows it. -/
def withEqual? : Symbol → Option Symbol
  | bang => some bangEqual
  | equal => some equalEqual
  | greater => some greaterEqual
  | less => some lessEqual
  | _ => none

theorem characters_ne_nil (symbol : Symbol) : symbol.characters ≠ [] := by
  cases symbol <;> decide

theorem characters_of_ofChar? {character : Char} {symbol : Symbol}
    (hsome : ofChar? character = some symbol) : symbol.characters = [character] := by
  unfold ofChar? at hsome
  split at hsome <;> cases hsome <;> rfl

theorem characters_of_withEqual? {symbol longer : Symbol}
    (hsome : symbol.withEqual? = some longer) : longer.characters = symbol.characters ++ ['='] := by
  cases symbol <;> cases hsome <;> rfl

end Symbol

/-! ### Keywords -/

inductive Keyword
  | andWord
  | classWord
  | elseWord
  | falseWord
  | funWord
  | forWord
  | ifWord
  | nilWord
  | orWord
  | printWord
  | returnWord
  | superWord
  | thisWord
  | trueWord
  | varWord
  | whileWord
deriving DecidableEq

namespace Keyword

def text : Keyword → String
  | andWord => "and"
  | classWord => "class"
  | elseWord => "else"
  | falseWord => "false"
  | funWord => "fun"
  | forWord => "for"
  | ifWord => "if"
  | nilWord => "nil"
  | orWord => "or"
  | printWord => "print"
  | returnWord => "return"
  | superWord => "super"
  | thisWord => "this"
  | trueWord => "true"
  | varWord => "var"
  | whileWord => "while"

def all : List Keyword :=
  [andWord, classWord, elseWord, falseWord, funWord, forWord, ifWord, nilWord, orWord, printWord,
    returnWord, superWord, thisWord, trueWord, varWord, whileWord]

/-- The keyword that a word spells. -/
def ofWord? (word : String) : Option Keyword :=
  all.find? fun keyword ↦ keyword.text == word

/-- Whether a statement begins with this keyword. -/
def beginsStatement : Keyword → Bool
  | classWord | forWord | funWord | ifWord | printWord | returnWord | varWord | whileWord => true
  | _ => false

theorem text_of_ofWord? {word : String} {keyword : Keyword} (hsome : ofWord? word = some keyword) :
    keyword.text = word := by
  simpa using List.find?_some hsome

end Keyword

/-! ### Values -/

inductive Value
  | nil
  | bool (truth : Bool)
  | number (value : Float)
  | string (characters : String)
deriving BEq, Inhabited

namespace Value

/-- Only `nil` and false count as false. -/
def isTruthy : Value → Bool
  | nil => false
  | bool truth => truth
  | number _ => true
  | string _ => true

/-- The text of a value; that of a string is the string itself, without quotes. -/
def text : Value → String
  | nil => "nil"
  | bool true => "true"
  | bool false => "false"
  | number value => Number.text value
  | string characters => characters

end Value

/-! ### Tokens -/

/-- What a lexeme is. A string and a number come with what they denote. -/
inductive TokenKind
  | symbol (mark : Symbol)
  | keyword (word : Keyword)
  | identifier
  | string (characters : String)
  | number (value : Float)
  | unrecognized
  | endOfInput
deriving BEq, Inhabited

structure Token where
  kind : TokenKind
  lexeme : String
  line : Nat
deriving BEq, Inhabited

namespace TokenKind

/-- A word is a keyword if it is one of these, and otherwise a name. -/
def ofWord (word : String) : TokenKind :=
  match Keyword.ofWord? word with
  | some reserved => .keyword reserved
  | none => .identifier

def isEnd : TokenKind → Bool
  | endOfInput => true
  | _ => false

/-- What a number or a string denotes. -/
def payload? : TokenKind → Option Value
  | number value => some (.number value)
  | string characters => some (.string characters)
  | _ => none

/-- The value of a token that is an expression by itself. -/
def literal? : TokenKind → Option Value
  | keyword .nilWord => some .nil
  | keyword .trueWord => some (.bool true)
  | keyword .falseWord => some (.bool false)
  | kind => kind.payload?

def beginsStatement : TokenKind → Bool
  | keyword word => word.beginsStatement
  | _ => false

end TokenKind

end Lox
