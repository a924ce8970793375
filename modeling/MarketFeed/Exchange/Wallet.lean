import MarketFeed.Json.Record

/-!
# Wallets of the exchange

A `Wallet` as the exchange reports it, with the balance of each coin (`CoinBalance`).  Amounts that
an account does not use are blank or missing and count as zero.
-/

namespace MarketFeed

/-- The balance of a coin. -/
structure CoinBalance where
  coin : String
  equity : Decimal
  usdValue : Decimal
  walletBalance : Decimal
  availableToWithdraw : Decimal
  borrowAmount : Decimal
  accruedInterest : Decimal
  totalOrderIm : Decimal
  totalPositionIm : Decimal
  totalPositionMm : Decimal
  unrealisedPnl : Decimal
  cumRealisedPnl : Decimal
  locked : Decimal
  collateralSwitch : Bool
  marginCollateral : Bool
  deriving DecidableEq

namespace CoinBalance

open Json

/-- The fields of a balance. -/
def record : Record CoinBalance where
  name := "CoinBalance"
  fields := [
    .required "coin" "coin" .text,
    .amount "equity" "equity",
    .amount "usd_value" "usdValue",
    .amount "wallet_balance" "walletBalance",
    .amount "available_to_withdraw" "availableToWithdraw",
    .amount "borrow_amount" "borrowAmount",
    .amount "accrued_interest" "accruedInterest",
    .amount "total_order_im" "totalOrderIM",
    .amount "total_position_im" "totalPositionIM",
    .amount "total_position_mm" "totalPositionMM",
    .amount "unrealised_pnl" "unrealisedPnl",
    .amount "cum_realised_pnl" "cumRealisedPnl",
    .amount "locked" "locked",
    .withDefault "collateral_switch" "collateralSwitch" .flag false,
    .withDefault "margin_collateral" "marginCollateral" .flag false]
  ofValues := fun (coin, equity, usdValue, walletBalance, availableToWithdraw, borrowAmount,
      accruedInterest, totalOrderIm, totalPositionIm, totalPositionMm, unrealisedPnl,
      cumRealisedPnl, locked, collateralSwitch, marginCollateral, ()) =>
    { coin, equity, usdValue, walletBalance, availableToWithdraw, borrowAmount, accruedInterest,
      totalOrderIm, totalPositionIm, totalPositionMm, unrealisedPnl, cumRealisedPnl, locked,
      collateralSwitch, marginCollateral }
  toValues c := (c.coin, c.equity, c.usdValue, c.walletBalance, c.availableToWithdraw,
    c.borrowAmount, c.accruedInterest, c.totalOrderIm, c.totalPositionIm, c.totalPositionMm,
    c.unrealisedPnl, c.cumRealisedPnl, c.locked, c.collateralSwitch, c.marginCollateral, ())

/-- Balances as objects. -/
def codec : Codec CoinBalance := record.codec

end CoinBalance

/-- The state of an account. -/
structure Wallet where
  accountType : String
  accountImRate : Decimal
  accountMmRate : Decimal
  totalEquity : Decimal
  totalWalletBalance : Decimal
  totalMarginBalance : Decimal
  totalAvailableBalance : Decimal
  totalPerpUpl : Decimal
  totalInitialMargin : Decimal
  totalMaintenanceMargin : Decimal
  coins : List CoinBalance
  deriving DecidableEq

namespace Wallet

open Json

/-- The fields of a wallet. -/
def record : Record Wallet where
  name := "WalletEvent"
  fields := [
    .required "account_type" "accountType" .text,
    .amount "account_im_rate" "accountIMRate",
    .amount "account_mm_rate" "accountMMRate",
    .amount "total_equity" "totalEquity",
    .amount "total_wallet_balance" "totalWalletBalance",
    .amount "total_margin_balance" "totalMarginBalance",
    .amount "total_available_balance" "totalAvailableBalance",
    .amount "total_perp_upl" "totalPerpUPL",
    .amount "total_initial_margin" "totalInitialMargin",
    .amount "total_maintenance_margin" "totalMaintenanceMargin",
    .withDefault "coin" "coin" (.list CoinBalance.codec) []]
  ofValues := fun (accountType, accountImRate, accountMmRate, totalEquity, totalWalletBalance,
      totalMarginBalance, totalAvailableBalance, totalPerpUpl, totalInitialMargin,
      totalMaintenanceMargin, coins, ()) =>
    { accountType, accountImRate, accountMmRate, totalEquity, totalWalletBalance,
      totalMarginBalance, totalAvailableBalance, totalPerpUpl, totalInitialMargin,
      totalMaintenanceMargin, coins }
  toValues w := (w.accountType, w.accountImRate, w.accountMmRate, w.totalEquity,
    w.totalWalletBalance, w.totalMarginBalance, w.totalAvailableBalance, w.totalPerpUpl,
    w.totalInitialMargin, w.totalMaintenanceMargin, w.coins, ())

/-- Wallets as objects. -/
def codec : Codec Wallet := record.codec

/-- The first balance of a coin. -/
def coin? (w : Wallet) (name : String) : Option CoinBalance := w.coins.find? (·.coin == name)

end Wallet

end MarketFeed
