import FrontEnd.Text.Blank

namespace FrontEnd

inductive Ty where
  | bool
  | int
  | symbol
  | token
  | lexicalEnv
  /-- What a lookup in a lexical environment yields. -/
  | envElement
  | node (name : String)
  | array (element : Ty)
  deriving DecidableEq, Inhabited

namespace Ty

/-- The type that a word stands for; a word that names no primitive is a node type. -/
def ofWord (word : String) : Ty :=
  match word with
  | "Bool" => bool
  | "Int" => int
  | "Symbol" => symbol
  | "Token" => token
  | "LexicalEnv" => lexicalEnv
  | "EnvElement" => envElement
  | other => node other

def bracketed? : List Char → Option (List Char)
  | '[' :: rest => if rest.getLast? = some ']' then some rest.dropLast else none
  | _ => none

theorem length_lt_of_bracketed? {cs inner : List Char} (h : bracketed? cs = some inner) :
    inner.length < cs.length := by
  unfold bracketed? at h
  split at h
  · split at h
    · simp only [Option.some.injEq] at h
      subst h
      simp only [List.length_dropLast, List.length_cons]
      omega
    · simp at h
  · simp at h

def ofChars (cs : List Char) : Ty :=
  match _h : bracketed? (Text.trim cs) with
  | some inner => array (ofChars inner)
  | none => ofWord (String.ofList (Text.trim cs))
termination_by cs.length
decreasing_by
  have h₁ := length_lt_of_bracketed? _h
  have h₂ := Text.length_trim_le cs
  omega

/-- Reads a type: blanks around it do not count, brackets make an array type. -/
def parse (text : String) : Ty := ofChars text.toList

def display : Ty → String
  | bool => "Bool"
  | int => "Int"
  | symbol => "Symbol"
  | token => "Token"
  | lexicalEnv => "LexicalEnv"
  | envElement => "EnvElement"
  | node name => name
  | array element => "[" ++ element.display ++ "]"

def element? : Ty → Option Ty
  | array element => some element
  | _ => none

/-- Values of the type are shared: generated code retains and releases them. -/
def isRefCounted : Ty → Bool
  | lexicalEnv | array _ => true
  | _ => false

/-- The part of a qualified target name after its last point. -/
def unqualified (target : String) : String :=
  String.ofList (target.toList.reverse.takeWhile (· != '.')).reverse

def target : Ty → String
  | bool => "Boolean"
  | int => "Integer"
  | symbol => "Symbol_Type"
  | token => "Token_Type"
  | lexicalEnv => "AST_Envs.Lexical_Env"
  | envElement => "AST_Envs.Env_Element"
  | node name => name
  | array element => unqualified element.target ++ "_Array_Access"

end Ty

end FrontEnd
