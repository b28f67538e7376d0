import EvmJumps.Hex
import EvmJumps.Config.Draft

namespace EvmJumps

inductive Error where
  | hex (fault : Hex.Fault)
  | unknownMnemonic (text : List Char)
  | configText (fault : Config.Fault)
  | config (flaw : Config.Flaw)
  | codeTooLong (size limit : Nat)
  deriving Repr

namespace Error

/-- Either a text could not be decoded, or a value was refused. -/
inductive Kind where
  | decoding
  | validation
  deriving DecidableEq, Repr

def kind : Error → Kind
  | .hex _ | .unknownMnemonic _ | .configText _ => .decoding
  | .config _ | .codeTooLong _ _ => .validation

def Kind.heading : Kind → String
  | .decoding => "Erro de decodificação: "
  | .validation => "Erro de validação: "

def detail : Error → String
  | .hex fault => "hex inválido: " ++ fault.message
  | .unknownMnemonic text => "mnemônico desconhecido: " ++ String.ofList text
  | .configText fault => "configuração inválida: " ++ fault.message
  | .config flaw => flaw.message
  | .codeTooLong size limit =>
    "código com " ++ String.ofList (Text.decimal size) ++ " bytes excede o limite de " ++
      String.ofList (Text.decimal limit)

def message (e : Error) : String :=
  e.kind.heading ++ e.detail

end Error

end EvmJumps
